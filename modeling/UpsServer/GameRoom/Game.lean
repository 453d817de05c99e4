import UpsServer.GameRoom.RoomStructs
import UpsServer.GameRoom.ShortestCycle
import UpsServer.Linux.Epoll

open UpsServer.GameGraph (GAME_NODE_NUM)

namespace UpsServer

structure Player where
  myGraph : GameGraph GAME_NODE_NUM := {}
  client : Option ProtocolClient := none
  lastSeen : UInt64 := 0
deriving DecidableEq

namespace Player

def MAX_INACTIVITY_MS : UInt64 := 30000

/-- The player is online and his client has this descriptor. -/
def hasClient (p : Player) (clientFd : Int) : Bool := p.client.any (·.clientFd == clientFd)

end Player

inductive GameHandler where
  | onNewClientConnect
  | onClientWrite
  | onClientDisconnect
deriving DecidableEq, Repr

/-- A game, with the two queues it shares with the idle room and the sockets
that destructors have closed on its thread. -/
structure Game where
  isRunning : Bool := true
  player1 : Player := {}
  player2 : Player := {}
  isPlayerOneTurn : Bool := true
  isPaused : Bool := false
  gameInput : EventfdQueue ProtocolClient
  gameOutput : EventfdQueue GameStateChange
  epoll : Epoll GameHandler := { isEdgeTriggered := true }
  closedSockets : List Int := []
deriving DecidableEq

/-- A reference to one of the two players of a game. -/
inductive PlayerRef where
  | player1
  | player2
deriving DecidableEq, Repr

def PlayerRef.other : PlayerRef → PlayerRef
  | .player1 => .player2
  | .player2 => .player1

@[simp] theorem PlayerRef.other_other (ref : PlayerRef) : ref.other.other = ref := by
  cases ref <;> rfl

@[simp] theorem PlayerRef.other_ne (ref : PlayerRef) : ref.other ≠ ref := by
  cases ref <;> simp [PlayerRef.other]

theorem PlayerRef.eq_or_eq_other (ref ref' : PlayerRef) : ref = ref' ∨ ref = ref'.other := by
  cases ref <;> cases ref' <;> simp [PlayerRef.other]

instance (p : PlayerRef → Prop) [DecidablePred p] : Decidable (∃ ref, p ref) :=
  decidable_of_iff (p .player1 ∨ p .player2)
    ⟨fun h => h.elim (⟨.player1, ·⟩) (⟨.player2, ·⟩), fun ⟨ref, h⟩ => by
      cases ref with
      | player1 => exact .inl h
      | player2 => exact .inr h⟩

/-- The edge a command asks for and the player who asks for it. -/
structure Move where
  player : PlayerRef
  edgeSource : Nat
  edgeDestination : Nat
deriving DecidableEq

namespace Game

def MAX_REQ_DENIED_CNT : Nat := 5

def player (g : Game) : PlayerRef → Player
  | .player1 => g.player1
  | .player2 => g.player2

def modifyPlayer (g : Game) (ref : PlayerRef) (f : Player → Player) : Game :=
  match ref with
  | .player1 => { g with player1 := f g.player1 }
  | .player2 => { g with player2 := f g.player2 }

def playerOneOnline (g : Game) : Bool := g.player1.client.isSome

def playerTwoOnline (g : Game) : Bool := g.player2.client.isSome

def bothPlayersOnline (g : Game) : Bool := g.playerOneOnline && g.playerTwoOnline

/-- The client behind a player's pointer. -/
def clientOf (g : Game) (ref : PlayerRef) : Exec Game ProtocolClient :=
  match (g.player ref).client with
  | some client => .ok client
  | none => .error (.nullDereference, g)

/-- The player whose client has a descriptor. -/
def findPlayer (g : Game) (clientFd : Int) : Option PlayerRef :=
  if g.player1.hasClient clientFd then some .player1
  else if g.player2.hasClient clientFd then some .player2
  else none

def getPlayer (g : Game) (clientFd : Int) : Exec Game PlayerRef :=
  match g.findPlayer clientFd with
  | some ref => .ok ref
  | none =>
    .error (.runtimeError ("Game::getPlayer: ERROR - Unknown clientfd: " ++ toString clientFd), g)

/-- The player who owns the client a reference `ProtocolClient&` points to. The
reference is known by the descriptor of the client; once no player owns such a
client the object is gone. -/
def derefClient (g : Game) (clientFd : Int) : Exec Game PlayerRef :=
  match g.findPlayer clientFd with
  | some ref => .ok ref
  | none => .error (.useAfterFree, g)

def modifyClient (g : Game) (ref : PlayerRef) (f : ProtocolClient → ProtocolClient) : Game :=
  g.modifyPlayer ref fun p => { p with client := p.client.map f }

def sendMsg (g : Game) (ref : PlayerRef) (msg : ProtocolData) : Exec Game Game := do
  let _ ← g.clientOf ref
  pure (g.modifyClient ref (·.sendMsg msg))

def serializeGameData (g : Game) : UnorderedMap Str Str :=
  let name (p : Player) : Str := p.client.elim [] (·.clientName)
  let data := (∅ : UnorderedMap Str Str)
    |>.set "game_state".toList (if g.isPaused then "PAUSED".toList else "RUNNING".toList)
    |>.set "player1_username".toList (name g.player1)
    |>.set "player2_username".toList (name g.player2)
    |>.set "player1_edges".toList g.player1.myGraph.serializeUndirectedEdges
    |>.set "player2_edges".toList g.player2.myGraph.serializeUndirectedEdges
  if g.bothPlayersOnline then
    data.set "on_turn".toList (if g.isPlayerOneTurn then name g.player1 else name g.player2)
  else data

def clearGame (g : Game) : Game :=
  { g with
    player1 := { g.player1 with myGraph := g.player1.myGraph.clear }
    player2 := { g.player2 with myGraph := g.player2.myGraph.clear } }

/-- The destructor of a client closes its socket. -/
def closeSocket (g : Game) (clientFd : Int) : Game :=
  { g with epoll := g.epoll.kernelClose clientFd, closedSockets := g.closedSockets ++ [clientFd] }

/-- Resets the pointer of a player whose client has this descriptor. -/
def dropClient (g : Game) (ref : PlayerRef) (clientFd : Int) : Game :=
  if (g.player ref).hasClient clientFd then
    (g.closeSocket clientFd).modifyPlayer ref fun p => { p with client := none }
  else g

/-- Sends the state of the game to a player who is online. -/
def sendGameState (g : Game) (ref : PlayerRef) : Game :=
  g.modifyClient ref (·.sendMsg ⟨.GAME_STATE, g.serializeGameData⟩)

def onClientDisconnect (g : Game) (clientFd : Int) : Game :=
  let g := (g.dropClient .player1 clientFd).dropClient .player2 clientFd
  -- Both players are gone - terminate game
  if !g.playerOneOnline && !g.playerTwoOnline then { g with isRunning := false }
  else
    -- Only one player is missing. Set the game into "PAUSED" mode
    let g := { g with gameOutput := g.gameOutput.push { newState := .PAUSED }, isPaused := true }
    (g.sendGameState .player1).sendGameState .player2

def denyRequest (g : Game) (clientFd : Int) : Exec Game Game := do
  let ref ← g.derefClient clientFd
  let client ← g.clientOf ref
  if client.reqDeniedCnt ≥ MAX_REQ_DENIED_CNT then pure (g.onClientDisconnect client.clientFd)
  else pure (g.modifyClient ref ProtocolClient.sendReqDeniedMsg)

def endGame (g : Game) : Game := { g with isRunning := false }

def clientPing (g : Game) (clientFd : Int) : Exec Game Game := do
  let ref ← g.derefClient clientFd
  g.sendMsg ref (newProtocolMessage .GAME_PING [])

/-- The nodes a text in the format `{<0-5>,<0-5>}` names; `none` when the code
denies it. -/
def parseEdge (edge : Str) : Except Fault (Option (Nat × Nat)) := do
  let strEdgeSource ← substr edge 1 1
  let strEdgeDestination ← substr edge 3 1
  let numbers : Except Fault (Int × Int) := do
    let t1 ← stoi strEdgeSource
    let t2 ← stoi strEdgeDestination
    pure (t1, t2)
  match numbers with
  | .ok (t1, t2) => if t1 ≥ 0 ∧ t2 ≥ 0 then pure (some (t1.toNat, t2.toNat)) else pure none
  -- catch (...)
  | .error _ => pure none

/-- It is the other player's turn. -/
def isNotOnTurn (g : Game) (clientFd : Int) : Exec Game Bool := do
  let opponent ← g.clientOf (if g.isPlayerOneTurn then .player2 else .player1)
  pure (opponent.clientFd == clientFd)

/-- The checks of `_processGameCommand` on the edge, with `none` for each
`_denyRequest(client); return;`. -/
def checkEdge (g : Game) (ref : PlayerRef) (edge : Str) : Exec Game (Option Move) := do
  match ← withState g (parseEdge edge) with
  | none => pure none
  | some (edgeSource, edgeDestination) =>
    -- Is this a valid edge in current player's graph?
    if !(g.player ref).myGraph.isValidEdge edgeSource edgeDestination then pure none
    -- Does player1's graph or player2's graph already have this edge?
    else if ← withState g (g.player1.myGraph.hasUndirectedEdge edgeSource edgeDestination) then pure none
    else if ← withState g (g.player2.myGraph.hasUndirectedEdge edgeSource edgeDestination) then pure none
    else pure (some ⟨ref, edgeSource, edgeDestination⟩)

/-- All the checks of `_processGameCommand`. -/
def readMove (g : Game) (msg : ProtocolData) (clientFd : Int) : Exec Game (Option Move) := do
  -- Don't do anything if the game is paused
  if g.isPaused then pure none
  else
    let ref ← g.getPlayer clientFd
    if ← g.isNotOnTurn clientFd then pure none
    else if !msg.hasField "add_edge".toList then pure none
    else
      let edge ← withState g (msg.getField "add_edge".toList)
      g.checkEdge ref edge

/-- The graph of the moving player with the new edge. -/
def movedGraph (g : Game) (move : Move) : GameGraph GAME_NODE_NUM :=
  (g.player move.player).myGraph.addUndirectedEdge move.edgeSource move.edgeDestination

/-- The player who is sent as the winner when `loser` has lost. -/
def winningPlayer (g : Game) (loser : PlayerRef) : Exec Game ProtocolClient := do
  let player1 ← g.clientOf .player1
  let player ← g.clientOf loser
  if player1.clientFd = player.clientFd then g.clientOf .player2 else pure player1

/-- The game state that is sent after a move. -/
def moveData (g : Game) (move : Move) (playerLost : Bool) : Exec Game (UnorderedMap Str Str) :=
  if playerLost then do
    let winner ← g.winningPlayer move.player
    pure (g.serializeGameData.set "winning_player".toList winner.clientName)
  else pure g.serializeGameData

/-- The board after a move, before the loser's board is cleared. -/
def addMove (g : Game) (move : Move) : Game :=
  { g.modifyPlayer move.player fun p => { p with myGraph := g.movedGraph move } with
    isPlayerOneTurn := !g.isPlayerOneTurn }

/-- The rest of `_processGameCommand`: an edge that passed the checks is added. -/
def playMove (g : Game) (move : Move) : Exec Game Game := do
  -- If player's graph has a cycle of length 3, then he loses the game
  let playerLost := (g.movedGraph move).hasCycleOfLength3
  let g := g.addMove move
  -- Send back new game state to both players
  let gameData ← g.moveData move playerLost
  let g ← g.sendMsg .player1 ⟨.GAME_STATE, gameData⟩
  let g ← g.sendMsg .player2 ⟨.GAME_STATE, gameData⟩
  pure (if playerLost then g.clearGame else g)

def processGameCommand (g : Game) (msg : ProtocolData) (clientFd : Int) : Exec Game Game := do
  let _ ← g.derefClient clientFd
  match ← g.readMove msg clientFd with
  | none => g.denyRequest clientFd
  | some move => g.playMove move

/-- Disconnects a player who has been silent for too long when `ref` was seen
last. -/
def checkInactivity (g : Game) (ref silent : PlayerRef) : Game :=
  if (g.player silent).lastSeen ≠ 0 ∧
      (g.player ref).lastSeen - (g.player silent).lastSeen > Player.MAX_INACTIVITY_MS then
    match (g.player silent).client with
    | some client => g.onClientDisconnect client.clientFd
    | none => g
  else g

/-- `now` is the reading of the clock, in milliseconds. -/
def updateClientLastSeen (g : Game) (clientFd : Int) (now : UInt64) : Exec Game Game := do
  let _ ← g.derefClient clientFd
  let ref ← g.getPlayer clientFd
  let g := g.modifyPlayer ref fun p => { p with lastSeen := now }
  pure ((g.checkInactivity ref .player1).checkInactivity ref .player2)

/-- The switch of `_processClientMessage`. -/
def answerMessage (g : Game) (msg : ProtocolData) (clientFd : Int) : Exec Game Game :=
  match msg.method with
  | .GAME_COMMAND => g.processGameCommand msg clientFd
  | .GAME_LEAVE => pure g.endGame
  | .GAME_PING => g.clientPing clientFd
  | _ => g.denyRequest clientFd

def processClientMessage (g : Game) (msg : ProtocolData) (clientFd : Int) (now : UInt64) :
    Exec Game Game := do
  let g ← g.answerMessage msg clientFd
  g.updateClientLastSeen clientFd now

/-- The player an arriving client becomes. -/
def freePlayer (g : Game) : Option PlayerRef :=
  if !g.playerOneOnline then some .player1
  else if !g.playerTwoOnline then some .player2
  else none

/-- The client popped from the input becomes a player. -/
def arrive (g : Game) (ref : PlayerRef) (client : ProtocolClient)
    (gameInput : EventfdQueue ProtocolClient) : Game :=
  { g with gameInput := gameInput }.modifyPlayer ref fun p => { p with client := some client }

/-- Register this client with epoll. -/
def registerClient (g : Game) (clientFd : Int) : Exec Game Game := do
  let epoll ← withState g (g.epoll.watchClient clientFd .onClientWrite .onClientDisconnect)
  pure { g with epoll := epoll }

/-- The game state is sent to both players. The clock is read twice. -/
def greetPlayers (g : Game) (now1 now2 : UInt64) : Exec Game Game := do
  let gameData := g.serializeGameData
  let g ← g.sendMsg .player1 ⟨.GAME_STATE, gameData⟩
  let player1 ← g.clientOf .player1
  let g ← g.updateClientLastSeen player1.clientFd now1
  let g ← g.sendMsg .player2 ⟨.GAME_STATE, gameData⟩
  let player2 ← g.clientOf .player2
  g.updateClientLastSeen player2.clientFd now2

/-- A turn of the loop of `_onNewClientConnect`, which runs while `gameInput`
is not empty. -/
def takeNewClient (g : Game) (now1 now2 : UInt64) : Exec Game Game :=
  match g.freePlayer, g.gameInput.pop with
  | none, _ =>
    .error (.runtimeError "Game::_onNewClientConnect: ERROR - Game already has two players.", g)
  | some _, none => .ok g
  | some ref, some (client, gameInput) => do
    let g ← (g.arrive ref client gameInput).registerClient client.clientFd
    if g.bothPlayersOnline then greetPlayers { g with isPaused := false } now1 now2 else pure g

/-- The first part of `_onClientWrite`: the messages that were received. A
client whose data cannot be read or parsed is dropped. -/
def receiveMessages (g : Game) (clientFd : Int) (received : Option Str) :
    Exec Game (List ProtocolData × Game) := do
  let ref ← g.getPlayer clientFd
  let client ← g.clientOf ref
  match client.receiveMsg received with
  | .error _ => pure ([], g.onClientDisconnect client.clientFd)
  | .ok (messages, client) => pure (messages.getD [], g.modifyClient ref fun _ => client)

/-- The loop of `_onClientWrite` over the messages, with the reading of the
clock for each of them. -/
def processMessages (g : Game) (clientFd : Int) :
    List ProtocolData → (Nat → UInt64) → Exec Game Game
  | [], _ => pure g
  | msg :: messages, now => do
    let g ← g.processClientMessage msg clientFd (now 0)
    processMessages g clientFd messages fun i => now (i + 1)

def onClientWrite (g : Game) (clientFd : Int) (received : Option Str) (now : Nat → UInt64) :
    Exec Game Game := do
  let (messages, g) ← g.receiveMessages clientFd received
  g.processMessages clientFd messages now

/-- The destructor returns the clients to the idle room. -/
def destruct (g : Game) : Game :=
  { g with
    gameOutput := g.gameOutput.push { newState := .IDLE, client1 := g.player1.client, client2 := g.player2.client }
    player1 := { g.player1 with client := none }
    player2 := { g.player2 with client := none } }

@[simp] theorem player_closeSocket (g : Game) (clientFd : Int) (ref : PlayerRef) :
    (g.closeSocket clientFd).player ref = g.player ref := by
  cases ref <;> rfl

section ModifyPlayer

variable (g : Game) (ref : PlayerRef) (f : Player → Player)

@[simp] theorem isRunning_modifyPlayer : (g.modifyPlayer ref f).isRunning = g.isRunning := by
  cases ref <;> rfl

@[simp] theorem isPaused_modifyPlayer : (g.modifyPlayer ref f).isPaused = g.isPaused := by
  cases ref <;> rfl

@[simp] theorem gameInput_modifyPlayer : (g.modifyPlayer ref f).gameInput = g.gameInput := by
  cases ref <;> rfl

@[simp] theorem gameOutput_modifyPlayer : (g.modifyPlayer ref f).gameOutput = g.gameOutput := by
  cases ref <;> rfl

@[simp] theorem epoll_modifyPlayer : (g.modifyPlayer ref f).epoll = g.epoll := by cases ref <;> rfl

@[simp] theorem closedSockets_modifyPlayer :
    (g.modifyPlayer ref f).closedSockets = g.closedSockets := by
  cases ref <;> rfl

theorem player_modifyPlayer (ref' : PlayerRef) :
    (g.modifyPlayer ref f).player ref' = if ref' = ref then f (g.player ref) else g.player ref' := by
  cases ref <;> cases ref' <;> rfl

/-- An update of a player that keeps what `view` shows of his client. -/
theorem map_client_modifyPlayer {α : Type} (view : ProtocolClient → α)
    (hf : (f (g.player ref)).client.map view = (g.player ref).client.map view) (ref' : PlayerRef) :
    ((g.modifyPlayer ref f).player ref').client.map view = (g.player ref').client.map view := by
  rw [player_modifyPlayer]
  split
  · rename_i href
    rw [href]
    exact hf
  · rfl

@[simp] theorem player_modifyPlayer_self :
    (g.modifyPlayer ref f).player ref = f (g.player ref) := by
  cases ref <;> rfl

@[simp] theorem player_modifyPlayer_other :
    (g.modifyPlayer ref f).player ref.other = g.player ref.other := by
  cases ref <;> rfl

end ModifyPlayer

theorem map_client_modifyClient {α : Type} (view : ProtocolClient → α) (g : Game) (ref : PlayerRef)
    {f : ProtocolClient → ProtocolClient}
    (hf : ∀ client, (g.player ref).client = some client → view (f client) = view client)
    (ref' : PlayerRef) :
    ((g.modifyClient ref f).player ref').client.map view = (g.player ref').client.map view := by
  refine map_client_modifyPlayer g ref _ view ?_ ref'
  cases hclient : (g.player ref).client with
  | none => rfl
  | some client => exact congrArg some (hf client hclient)

end Game

end UpsServer
