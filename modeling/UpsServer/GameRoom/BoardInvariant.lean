import UpsServer.GameRoom.Board

open Outcome

namespace UpsServer.Game

/-- Both graphs are undirected graphs without loops, and no edge belongs to both
players. -/
structure BoardOk (g : Game) : Prop where
  undirected : ∀ ref, (g.player ref).myGraph.Undirected
  disjoint :
    ∀ i j, ¬ (g.player1.myGraph.adjacencyMatrix i j = 1 ∧ g.player2.myGraph.adjacencyMatrix i j = 1)

/-- The player who was on turn when the round started owns as many edges as the
other one when it is his turn, and one more when it is not. -/
def Alternates (starter : PlayerRef) (g : Game) : Prop :=
  (g.player starter).myGraph.edges.card =
    (g.player starter.other).myGraph.edges.card + if g.onTurn = starter then 0 else 1

theorem graph_of_board {g g' : Game} (h : g'.board = g.board) (ref : PlayerRef) :
    (g'.player ref).myGraph = (g.player ref).myGraph := by
  simp only [board, Prod.mk.injEq] at h
  cases ref
  · exact h.1
  · exact h.2.1

theorem onTurn_of_board {g g' : Game} (h : g'.board = g.board) : g'.onTurn = g.onTurn := by
  simp only [board, Prod.mk.injEq] at h
  rw [onTurn, onTurn, h.2.2]

theorem BoardOk.of_board {g g' : Game} (hok : BoardOk g) (h : g'.board = g.board) : BoardOk g' := by
  refine ⟨fun ref => by rw [graph_of_board h]; exact hok.undirected ref, fun i j => ?_⟩
  have h1 : g'.player1.myGraph = g.player1.myGraph := graph_of_board h .player1
  have h2 : g'.player2.myGraph = g.player2.myGraph := graph_of_board h .player2
  rw [h1, h2]
  exact hok.disjoint i j

theorem Alternates.of_board {g g' : Game} {starter : PlayerRef} (halt : Alternates starter g)
    (h : g'.board = g.board) : Alternates starter g' := by
  rw [Alternates, graph_of_board h, graph_of_board h, onTurn_of_board h]
  exact halt

theorem graph_addMove_self (g : Game) (move : Move) :
    ((g.addMove move).player move.player).myGraph = g.movedGraph move := by
  obtain ⟨mover, _, _⟩ := move
  cases mover <;> rfl

theorem graph_addMove_other (g : Game) (move : Move) :
    ((g.addMove move).player move.player.other).myGraph = (g.player move.player.other).myGraph := by
  obtain ⟨mover, _, _⟩ := move
  cases mover <;> rfl

theorem onTurn_addMove (g : Game) (move : Move) : (g.addMove move).onTurn = g.onTurn.other := by
  cases h : g.isPlayerOneTurn <;> simp [onTurn, addMove, h, PlayerRef.other]

theorem graph_clearGame (g : Game) (ref : PlayerRef) : (g.clearGame.player ref).myGraph = {} := by
  cases ref <;> rfl

section Move

variable {g : Game} {move : Move} (hfree : g.isFreeEdge move.edgeSource move.edgeDestination = true)
include hfree

theorem undirected_movedGraph (hok : BoardOk g) : (g.movedGraph move).Undirected :=
  (hok.undirected move.player).addUndirectedEdge ((isFreeEdge_eq_true.mp hfree).1 move.player)

private theorem disjoint_movedGraph (hok : BoardOk g) (i j : Fin GameGraph.GAME_NODE_NUM) :
    ¬ ((g.movedGraph move).adjacencyMatrix i j = 1 ∧
      (g.player move.player.other).myGraph.adjacencyMatrix i j = 1) := by
  have hother := hok.undirected move.player.other
  have hnew := (isFreeEdge_eq_true.mp hfree).2 move.player.other
  rintro ⟨hmoved, hone⟩
  simp only [movedGraph, GameGraph.addUndirectedEdge] at hmoved
  split at hmoved
  · rename_i hedge
    rcases hedge with ⟨hi, hj⟩ | ⟨hi, hj⟩
    · rw [← hi, ← hj] at hnew
      exact Bool.false_ne_true (hnew.symm.trans ((hother.isUndirectedEdge_eq_true i j).mpr hone))
    · rw [← hi, ← hj] at hnew
      rw [hother.symm] at hone
      exact Bool.false_ne_true (hnew.symm.trans ((hother.isUndirectedEdge_eq_true j i).mpr hone))
  · have hdisjoint := hok.disjoint i j
    cases hmover : move.player with
    | player1 =>
      rw [hmover] at hmoved hone
      exact hdisjoint ⟨hmoved, hone⟩
    | player2 =>
      rw [hmover] at hmoved hone
      exact hdisjoint ⟨hone, hmoved⟩

theorem boardOk_addMove (hok : BoardOk g) : BoardOk (g.addMove move) := by
  refine ⟨fun ref => ?_, fun i j => ?_⟩
  · rcases PlayerRef.eq_or_eq_other ref move.player with rfl | rfl
    · rw [graph_addMove_self]
      exact undirected_movedGraph hfree hok
    · rw [graph_addMove_other]
      exact hok.undirected _
  · have hself := graph_addMove_self g move
    have hother := graph_addMove_other g move
    have hdisjoint := disjoint_movedGraph hfree hok i j
    cases hmover : move.player with
    | player1 =>
      rw [hmover] at hself hother hdisjoint
      rintro ⟨h1, h2⟩
      exact hdisjoint ⟨hself ▸ h1, hother ▸ h2⟩
    | player2 =>
      rw [hmover] at hself hother hdisjoint
      rintro ⟨h1, h2⟩
      exact hdisjoint ⟨hself ▸ h2, hother ▸ h1⟩

private theorem boardOk_afterMove (hok : BoardOk g) : BoardOk (g.afterMove move) := by
  unfold afterMove
  split
  · refine ⟨fun ref => ?_, fun i j => ?_⟩
    · rw [graph_clearGame]
      exact GameGraph.undirected_empty
    · rintro ⟨h, _⟩
      exact absurd h (by simp [clearGame, GameGraph.clear])
  · exact boardOk_addMove hfree hok

private theorem card_movedGraph (hok : BoardOk g) :
    (g.movedGraph move).edges.card = (g.player move.player).myGraph.edges.card + 1 :=
  GameGraph.card_edges_addUndirectedEdge (hok.undirected move.player)
    ((isFreeEdge_eq_true.mp hfree).1 move.player)
    ((isFreeEdge_eq_true.mp hfree).2 move.player)

end Move

/-- A move of the player on turn keeps the alternation, and one that clears the
board starts a round of the other player. -/
theorem alternates_afterMove {g : Game} {move : Move} {starter : PlayerRef} (hok : BoardOk g)
    (hfree : g.isFreeEdge move.edgeSource move.edgeDestination = true)
    (hturn : move.player = g.onTurn) (h : Alternates starter g) :
    Alternates
      (if (g.movedGraph move).hasCycleOfLength3 then (g.afterMove move).onTurn else starter)
      (g.afterMove move) := by
  unfold afterMove
  split
  · rw [Alternates, graph_clearGame, graph_clearGame, if_pos rfl]
    rfl
  · have hcard := card_movedGraph hfree hok
    rw [Alternates, ← hturn] at h
    rw [Alternates, onTurn_addMove, ← hturn]
    rcases PlayerRef.eq_or_eq_other starter move.player with rfl | rfl
    · rw [if_pos rfl] at h
      rw [graph_addMove_self, graph_addMove_other, hcard, if_neg (PlayerRef.other_ne _), h]
    · rw [if_neg (PlayerRef.other_ne _).symm, PlayerRef.other_other] at h
      rw [if_pos rfl, PlayerRef.other_other, graph_addMove_self, graph_addMove_other, hcard, h,
        add_zero]

private theorem quiet_processGameCommand {g : Game} {msg : ProtocolData} {clientFd : Int}
    (h : ∀ move, g.readMove msg clientFd ≠ .ok (some move)) :
    Ends (Quiet g) (g.processGameCommand msg clientFd) := by
  refine (reads_derefClient g clientFd).bind_ends (.refl g) fun _ _ => ?_
  refine (reads_readMove g msg clientFd).bind_ends (.refl g) fun move hmove => ?_
  cases move with
  | none => exact quiet_denyRequest g clientFd
  | some move => exact (h move hmove).elim

/-- An accepted command plays its move. -/
theorem processGameCommand_of_move {g : Game} {msg : ProtocolData} {clientFd : Int} {move : Move}
    (h : g.readMove msg clientFd = .ok (some move)) :
    g.processGameCommand msg clientFd = g.playMove move := by
  rw [processGameCommand, derefClient_eq_ok.mpr (legal_of_readMove h).player, ok_bind, h]
  rfl

end UpsServer.Game

namespace UpsServer.GameThread

open Game

/-- The next message of the thread is a command that is accepted. -/
structure Accepts (t : GameThread) (action : GameAction) (msg : ProtocolData) (clientFd : Int)
    (move : Move) : Prop where
  action : ∃ now, action = .message now
  pc : ∃ messages, t.pc = .reading clientFd (msg :: messages)
  command : msg.method = .GAME_COMMAND
  accepted : t.game.readMove msg clientFd = .ok (some move)

/-- The sender and the message that the thread processes next. -/
def nextMessage (t : GameThread) : Option (Int × ProtocolData) :=
  match t.pc with
  | .reading clientFd (msg :: _) => some (clientFd, msg)
  | _ => none

theorem nextMessage_eq_some_iff {t : GameThread} {clientFd : Int} {msg : ProtocolData} :
    t.nextMessage = some (clientFd, msg) ↔ ∃ messages, t.pc = .reading clientFd (msg :: messages) := by
  unfold nextMessage
  split
  · rename_i hpc
    simp [hpc]
  · rename_i hnone
    simp only [reduceCtorEq, false_iff, not_exists]
    exact fun messages hpc => hnone _ _ _ hpc

/-- The step plays a move that loses, so that `_clearGame` is run. -/
def clears (t : GameThread) (action : GameAction) : Bool :=
  match action, t.pc with
  | .message _, .reading clientFd (msg :: _) =>
    decide (msg.method = .GAME_COMMAND) &&
      match t.game.readMove msg clientFd with
      | .ok (some move) => (t.game.movedGraph move).hasCycleOfLength3
      | _ => false
  | _, _ => false

/-- The player who was on turn at the start or after the last `_clearGame`. -/
def roundStarter (steps : List (GameThread × GameAction × GameThread)) : PlayerRef :=
  steps.foldl (fun starter s => if clears s.1 s.2.1 then s.2.2.game.onTurn else starter) .player1

theorem Accepts.clears_eq {t : GameThread} {action : GameAction} {msg : ProtocolData}
    {clientFd : Int} {move : Move} (h : Accepts t action msg clientFd move) :
    t.clears action = (t.game.movedGraph move).hasCycleOfLength3 := by
  obtain ⟨⟨now, rfl⟩, ⟨messages, hpc⟩, hcommand, haccepted⟩ := h
  simp [clears, hpc, hcommand, haccepted]

private theorem clears_eq_true {t : GameThread} {action : GameAction} (h : t.clears action = true) :
    ∃ msg clientFd move, Accepts t action msg clientFd move := by
  unfold clears at h
  split at h
  · rename_i now clientFd msg messages hpc
    rw [Bool.and_eq_true, decide_eq_true_eq] at h
    obtain ⟨hcommand, h⟩ := h
    split at h
    · rename_i move haccepted
      exact ⟨msg, clientFd, move, ⟨now, rfl⟩, ⟨messages, hpc⟩, hcommand, haccepted⟩
    · cases h
  · cases h

theorem board_stop
    {b : GameGraph GameGraph.GAME_NODE_NUM × GameGraph GameGraph.GAME_NODE_NUM × Bool} {g : Game}
    (h : g.board = b) : { g with isRunning := false }.board = b :=
  h

/-- An accepted command is processed without a fault and plays its move. -/
theorem board_processClientMessage {g : Game} {msg : ProtocolData} {clientFd : Int} {move : Move}
    (hcommand : msg.method = .GAME_COMMAND) (haccepted : g.readMove msg clientFd = .ok (some move))
    (now : UInt64) :
    Ends (fun g' => g'.board = (g.afterMove move).board)
      (g.processClientMessage msg clientFd now) := by
  have honline : g.Online := (legal_of_readMove haccepted).online
  obtain ⟨gameData, _, hplay⟩ := playMove_ok honline move
  have hanswer : g.answerMessage msg clientFd = g.playMove move := by
    rw [answerMessage, hcommand]
    exact processGameCommand_of_move haccepted
  rw [processClientMessage, hanswer, hplay, ok_bind]
  exact (quiet_updateClientLastSeen _ clientFd now).mono fun _ h =>
    h.board.trans (board_playMove honline hplay)

/-- Any other message leaves the board alone. -/
theorem quiet_processClientMessage {g : Game} {msg : ProtocolData} {clientFd : Int}
    (h : ∀ move, msg.method = .GAME_COMMAND → g.readMove msg clientFd ≠ .ok (some move))
    (now : UInt64) : Ends (Quiet g) (g.processClientMessage msg clientFd now) := by
  have hanswer : Ends (Quiet g) (g.answerMessage msg clientFd) := by
    by_cases hcommand : msg.method = .GAME_COMMAND
    · rw [answerMessage, hcommand]
      exact quiet_processGameCommand fun move => h move hcommand
    · exact quiet_answerMessage g clientFd hcommand
  exact hanswer.bind (fun _ h => h) fun g' _ h =>
    (quiet_updateClientLastSeen g' clientFd now).mono fun _ h' => h.trans h'

/-- A step leaves the board alone or plays an accepted move. -/
theorem board_step {t t' : GameThread} {action : GameAction} (h : step t action = some t') :
    (t'.game.board = t.game.board ∧ t.clears action = false) ∨
      ∃ msg clientFd move, Accepts t action msg clientFd move ∧
      t'.game.board = (t.game.afterMove move).board := by
  by_cases hany : ∃ msg clientFd move, Accepts t action msg clientFd move
  · obtain ⟨msg, clientFd, move, haccepts⟩ := hany
    refine .inr ⟨msg, clientFd, move, haccepts, ?_⟩
    obtain ⟨⟨now, rfl⟩, ⟨messages, hpc⟩, hcommand, haccepted⟩ := haccepts
    simp only [step, hpc] at h
    exact of_ends (board_processClientMessage hcommand haccepted now) (fun _ => board_stop)
      (resume_eq_some h)
  · refine .inl ⟨?_, Bool.eq_false_iff.mpr fun hclears => hany (clears_eq_true hclears)⟩
    cases effect_of_step h with
    | deliver _ _ hgame | output _ _ _ hgame | newClientEvent _ hgame | removeDescriptor _ hgame =>
      rw [hgame]
      rfl
    | handlerDone _ _ hgame | stop _ hgame => rw [hgame]
    | takeNewClient _ _ hresume =>
      exact of_ends ((settled_takeNewClient _ _ _).mono fun _ h => h.2) (fun _ => board_stop)
        (resume_eq_some hresume)
    | @message now clientFd msg messages hpc hresume =>
      refine of_ends
        ((quiet_processClientMessage (fun move hcommand haccepted => ?_) now).mono fun _ h =>
          h.board)
        (fun _ => board_stop) (resume_eq_some hresume)
      exact hany ⟨msg, clientFd, move, ⟨now, rfl⟩, ⟨messages, hpc⟩, hcommand, haccepted⟩
    | receive hreceive => exact (quiet_receiveMessages hreceive).board
    | receiveThrows _ _ _ hgame => exact hgame ▸ (quiet_stop _).board
    | disconnect _ hgame => exact hgame ▸ (quiet_onClientDisconnect _ _).board
    | destroy _ heq => rw [heq]; rfl

theorem boardOk_init {t : GameThread} (h : system.init t) :
    BoardOk t.game ∧ Alternates .player1 t.game := by
  obtain ⟨gameInput, gameOutput, _, hstart, _⟩ := h
  obtain ⟨epoll, hgame⟩ := start_eq_ok hstart
  rw [hgame]
  refine ⟨⟨fun ref => ?_, fun i j h => Nat.zero_ne_one h.1⟩, rfl⟩
  cases ref <;> exact GameGraph.undirected_empty

theorem boardOk_of_reachable {t : GameThread} (h : system.Reachable t) : BoardOk t.game := by
  refine h.invariant (P := fun t => BoardOk t.game) (fun t hinit => (boardOk_init hinit).1) ?_
  intro t action t' _ hok hstep
  rcases board_step hstep with ⟨hboard, _⟩ | ⟨msg, clientFd, move, haccepts, hboard⟩
  · exact hok.of_board hboard
  · exact (boardOk_afterMove (legal_of_readMove haccepts.accepted).free hok).of_board hboard

theorem alternates_of_run {steps : List (GameThread × GameAction × GameThread)} {t : GameThread}
    (h : system.Run steps t) : Alternates (roundStarter steps) t.game := by
  induction h with
  | init hinit => exact (boardOk_init hinit).2
  | @step steps t t' action hrun hstep halternates =>
    have hstarter : roundStarter (steps ++ [(t, action, t')]) =
        if t.clears action then t'.game.onTurn else roundStarter steps := by
      rw [roundStarter, List.foldl_append]
      rfl
    rw [hstarter]
    rcases board_step hstep with ⟨hboard, hclears⟩ | ⟨msg, clientFd, move, haccepts, hboard⟩
    · rw [hclears]
      exact halternates.of_board hboard
    · have hlegal := legal_of_readMove haccepts.accepted
      rw [haccepts.clears_eq, onTurn_of_board hboard]
      exact (alternates_afterMove (boardOk_of_reachable hrun.reachable) hlegal.free hlegal.onTurn
        halternates).of_board
        hboard

/-- In every run the graphs are disjoint undirected graphs, the players alternate
since the round started, and the board is changed by accepted commands of the
player on turn only. -/
theorem board_invariant {steps : List (GameThread × GameAction × GameThread)} {t : GameThread}
    (h : system.Run steps t) :
    BoardOk t.game ∧ Alternates (roundStarter steps) t.game ∧
      ∀ s ∈ steps, s.2.2.game.board = s.1.game.board ∨
        ∃ msg clientFd move, Accepts s.1 s.2.1 msg clientFd move ∧ move.player = s.1.game.onTurn ∧
          s.1.game.findPlayer clientFd = some move.player := by
  refine ⟨boardOk_of_reachable h.reachable, alternates_of_run h, fun s hs => ?_⟩
  rcases board_step (h.forall_reachable s hs).2
      with ⟨hboard, _⟩ | ⟨msg, clientFd, move, haccepts, _⟩
  · exact .inl hboard
  · have hlegal := legal_of_readMove haccepts.accepted
    exact .inr ⟨msg, clientFd, move, haccepts, hlegal.onTurn, hlegal.player⟩

/-- Two clients who wait for a game to take them. -/
def twoClients : EventfdQueue ProtocolClient :=
  { evfd := 100,
    data := [{ clientFd := 10, clientName := ['A'] }, { clientFd := 11, clientName := ['B'] }],
    counter := 2 }

/-- A game thread as it begins, with two clients in its input. -/
def started : Option GameThread :=
  (Game.start twoClients { evfd := 101 }).toOption.map ({ game := · })

def joinBoth : List GameAction :=
  [.newClientEvent, .takeNewClient 1000 1000, .takeNewClient 1000 1000, .collected]

/-- A read in which a client sends one command. -/
def sendEdge (clientFd : Int) (edge : String) : List GameAction :=
  [.receive clientFd (some ("GAME_COMMAND\nadd_edge:" ++ edge ++ "\n\r\n\r\n").toList),
    .message 1000, .readDone]

theorem init_of_start {gameInput : EventfdQueue ProtocolClient}
    {gameOutput : EventfdQueue GameStateChange}
    (hnodup : (gameInput.data.map (·.clientFd)).Nodup) (t : GameThread)
    (h : (Game.start gameInput gameOutput).toOption.map ({ game := · }) = some t) :
    system.init t := by
  obtain ⟨g, hstart, rfl⟩ := Option.map_eq_some_iff.mp h
  exact ⟨gameInput, gameOutput, hnodup, toOption_eq_some.mp hstart, rfl⟩

/-- A run that can be evaluated, from the start of a game. -/
theorem exists_of_start {gameInput : EventfdQueue ProtocolClient}
    {gameOutput : EventfdQueue GameStateChange} {actions : List GameAction} {p : GameThread → Bool}
    (hnodup : (gameInput.data.map (·.clientFd)).Nodup)
    (h : (((Game.start gameInput gameOutput).toOption.map ({ game := · })).bind
      (TransitionSystem.runActions step actions)).any p = true) :
    ∃ t, system.Reachable t ∧ p t = true :=
  TransitionSystem.exists_reachable_of_any (fun _ _ _ => id) (init_of_start hnodup) h

theorem exists_of_started {actions : List GameAction} {p : GameThread → Bool}
    (h : (started.bind (TransitionSystem.runActions step actions)).any p = true) :
    ∃ t, system.Reachable t ∧ p t = true :=
  exists_of_start (by decide) h

/-- Two moves of one round. -/
theorem board_invariant_two_moves :
    ∃ steps t, system.Run steps t ∧ t.game.player1.myGraph.edges.card = 1 ∧
      t.game.player2.myGraph.edges.card = 1 ∧ BoardOk t.game ∧
      Alternates (roundStarter steps) t.game ∧ ∀ s ∈ steps, s.2.2.game.board = s.1.game.board ∨
      ∃ msg clientFd move, Accepts s.1 s.2.1 msg clientFd move ∧ move.player = s.1.game.onTurn ∧
      s.1.game.findPlayer clientFd = some move.player := by
  have hcheck : ((started.bind (TransitionSystem.runActions step
      (joinBoth ++ sendEdge 10 "{3,4}" ++ sendEdge 11 "{0,1}"))).any fun t =>
        t.game.player1.myGraph.edges.card == 1 &&
          t.game.player2.myGraph.edges.card == 1) = true := by
    decide +kernel
  obtain ⟨t, hreachable, hcards⟩ := exists_of_started hcheck
  obtain ⟨steps, hrun⟩ := hreachable.exists_run
  simp only [Bool.and_eq_true, beq_iff_eq] at hcards
  exact ⟨steps, t, hrun, hcards.1, hcards.2, board_invariant hrun⟩

end UpsServer.GameThread
