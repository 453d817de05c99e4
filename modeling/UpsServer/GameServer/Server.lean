import UpsServer.GameRoom.GameThread
import UpsServer.GameServer.IdleUsersRoom

namespace UpsServer

/-- Where the idle thread is: waiting for events, in the loop of one of its
handlers, or between two messages of a read. A JOIN_GAME that has started a game
has clients left to send to it. -/
inductive IdlePc where
  | waiting
  | collecting
  | reading (clientFd : Int) (messages : List ProtocolData)
  | sending (roomId : Int) (clients : List Int) (clientFd : Int) (messages : List ProtocolData)
  | changing (roomId : Int)
deriving DecidableEq

/-- The idle room and its thread, the threads of the games by their rooms, and
the sockets of clients that are open. The queues of a room belong to the room:
a game thread works on them in place. -/
structure Server where
  idle : IdleUsersRoom
  pc : IdlePc := .waiting
  games : UnorderedMap Int GameThread := ∅
  sockets : Finset Int := ∅
deriving DecidableEq

/-- What can happen to the server: a client connects, the idle thread goes on, or
one of the game threads does. -/
inductive ServerAction where
  | accept (clientFd : Int)
  | newClientEvent
  | addNewClient
  | newClientsDone
  | receive (clientFd : Int) (received : Option Str)
  | message
  | sendClient
  | readDone
  | disconnect (clientFd : Int) (event : EventMask)
  | stateChangeEvent (roomId : Int)
  | applyStateChange
  | stateChangesDone
  | game (roomId : Int) (action : GameAction)
deriving DecidableEq

namespace IdleUsersRoom

/-- A descriptor of one of the queues. -/
def isEvfd (idle : IdleUsersRoom) (fd : Int) : Bool :=
  idle.newClientsQueue.evfd == fd ||
    idle.gameRooms.any fun _ room => room.gameInput.evfd == fd || room.gameOutput.evfd == fd

/-- The room numbers `1`, …, `roomCount` with their rooms. -/
def createRooms (inputEvfd outputEvfd : Nat → Int) (roomCount : Nat) : UnorderedMap Int GameRoom :=
  (List.range roomCount).foldl (fun rooms i => rooms.set (i + 1 : Nat)
    { roomId := i + 1, gameInput := { evfd := inputEvfd (i + 1) },
      gameOutput := { evfd := outputEvfd (i + 1) } }) ∅

/-- The idle room as it is when its event loop begins. -/
def start (newClientsQueue : EventfdQueue Int) (gameRooms : UnorderedMap Int GameRoom) (maxPlayerCount : Nat) :
    Except Fault IdleUsersRoom := do
  let epoll : Epoll IdleHandler := { isEdgeTriggered := true }
  let epoll ← (epoll.addDescriptor newClientsQueue.evfd).addEventHandler newClientsQueue.evfd EPOLLIN .onNewClientConnect
  pure { maxPlayerCount := maxPlayerCount, epoll := epoll, newClientsQueue := newClientsQueue, gameRooms := gameRooms }

end IdleUsersRoom

namespace GameThread

/-- The thread working on the queues of a room. -/
def withQueues (t : GameThread) (room : GameRoom) : GameThread :=
  { t with game := { t.game with gameInput := room.gameInput, gameOutput := room.gameOutput } }

end GameThread

/-- The room with the queues as the thread has left them. -/
def GameRoom.withQueuesOf (t : GameThread) (room : GameRoom) : GameRoom :=
  { room with gameInput := t.game.gameInput, gameOutput := t.game.gameOutput }

namespace Server

/-- The thread of the game of a room. -/
def thread (s : Server) (roomId : Int) : Option GameThread :=
  (s.idle.gameRooms.get? roomId).bind fun room => (s.games.get? roomId).map (·.withQueues room)

/-- The sockets that are still open when the log of closed sockets has grown. -/
def remaining (s : Server) (before after : List Int) : Finset Int :=
  s.sockets \ (after.drop before.length).toFinset

/-- The idle thread has changed the idle room. -/
def withIdle (s : Server) (pc : IdlePc) (idle : IdleUsersRoom) : Server :=
  { s with idle := idle, pc := pc, sockets := s.remaining s.idle.closedSockets idle.closedSockets }

/-- The server after a handler of the idle room. An exception there ends the
program. -/
def resume (s : Server) (pc : IdlePc) : Exec IdleUsersRoom IdleUsersRoom → Option Server
  | .ok idle => some (s.withIdle pc idle)
  | .error _ => none

/-- The thread of the game of a room has gone on. When the destructor of the game
has run the thread is gone. -/
def withThread (s : Server) (roomId : Int) (t t' : GameThread) : Server :=
  { s with
    idle := { s.idle.modifyRoom roomId (GameRoom.withQueuesOf t') with
      epoll := (t'.game.closedSockets.drop t.game.closedSockets.length).foldl Epoll.kernelClose
        s.idle.epoll }
    games := if t'.pc = .finished then s.games.erase roomId else s.games.set roomId t'
    sockets := s.remaining t.game.closedSockets t'.game.closedSockets }

/-- A new thread begins to run a game on the queues of a room. -/
def startGame (s : Server) (roomId : Int) : Option Server :=
  (s.idle.gameRooms.get? roomId).bind fun room =>
    (Game.start room.gameInput room.gameOutput).toOption.map fun g =>
      { s with games := s.games.set roomId { game := g } }

/-- The rest of a read after a message. -/
def afterMessage (s : Server) (clientFd : Int) (messages : List ProtocolData) :
    Exec IdleUsersRoom (IdleUsersRoom × Option NewGame) → Option Server
  | .ok (idle, none) => some (s.withIdle (.reading clientFd messages) idle)
  | .ok (idle, some newGame) =>
    (s.withIdle (.sending newGame.roomId [newGame.client1, newGame.client2] clientFd messages)
      idle).startGame
      newGame.roomId
  | .error _ => none

/-- Where a read goes on when a client has been sent to a game. -/
def afterSend (roomId : Int) (clients : List Int) (clientFd : Int) (messages : List ProtocolData) :
    IdlePc :=
  if clients = [] then .reading clientFd messages else .sending roomId clients clientFd messages

/-- The steps of the server. Events are taken in any order. -/
def step (s : Server) : ServerAction → Option Server
  | .accept clientFd =>
    -- a descriptor that is open is not given out
    if 0 < clientFd ∧ clientFd ∉ s.sockets ∧ s.idle.isEvfd clientFd = false then
      some { s with
        idle := { s.idle with newClientsQueue := s.idle.newClientsQueue.push clientFd }
        sockets := insert clientFd s.sockets }
    else none
  | .newClientEvent =>
    if s.pc = .waiting ∧
      s.idle.epoll.handler s.idle.newClientsQueue.evfd EPOLLIN = some .onNewClientConnect then
      some
        (s.withIdle
          .collecting { s.idle with newClientsQueue := s.idle.newClientsQueue.eventfdRead })
    else none
  | .addNewClient =>
    if s.pc = .collecting then
      s.idle.newClientsQueue.pop.bind fun (clientFd, newClientsQueue) =>
        s.resume .collecting
          ({ s.idle with newClientsQueue := newClientsQueue }.addNewClient clientFd)
    else none
  | .newClientsDone =>
    if s.pc = .collecting ∧ s.idle.newClientsQueue.isEmpty = true then some { s with pc := .waiting } else none
  | .receive clientFd received =>
    if s.pc = .waiting ∧ s.idle.epoll.handler clientFd EPOLLIN = some .onClientWrite then
      match s.idle.receiveMessages clientFd received with
      | .ok (messages, idle) => some (s.withIdle (.reading clientFd messages) idle)
      | .error _ => none
    else none
  | .message =>
    match s.pc with
    | .reading clientFd (msg :: messages) =>
      s.afterMessage clientFd messages (s.idle.processClientMessage msg clientFd)
    | _ => none
  | .sendClient =>
    match s.pc with
    | .sending roomId (client :: clients) clientFd messages =>
      s.resume (afterSend roomId clients clientFd messages)
        (s.idle.sendClientToGameThread roomId client)
    | _ => none
  | .readDone =>
    match s.pc with
    | .reading _ [] => some { s with pc := .waiting }
    | _ => none
  | .disconnect clientFd event =>
    if s.pc = .waiting ∧ s.idle.epoll.handler clientFd event = some .onClientDisconnect then
      some (s.withIdle .waiting (s.idle.onClientDisconnect clientFd))
    else none
  | .stateChangeEvent roomId =>
    if s.pc = .waiting ∧ ((s.idle.gameRooms.get? roomId).any fun room =>
        s.idle.epoll.handler room.gameOutput.evfd EPOLLIN == some
          (.onGameStateChange roomId)) = true then
      some (s.withIdle (.changing roomId)
        (s.idle.modifyRoom roomId fun room => room.withOutput room.gameOutput.eventfdRead))
    else none
  | .applyStateChange =>
    match s.pc with
    | .changing roomId =>
      ((s.idle.gameRooms.get? roomId).bind (·.gameOutput.pop)).bind fun (newState, gameOutput) =>
        s.resume (.changing roomId)
          ((s.idle.modifyRoom roomId (GameRoom.withOutput gameOutput)).applyStateChange roomId
          newState)
    | _ => none
  | .stateChangesDone =>
    match s.pc with
    | .changing roomId =>
      if (s.idle.gameRooms.get? roomId).any (·.gameOutput.isEmpty) = true then some { s with pc := .waiting } else none
    | _ => none
  | .game roomId action =>
    if action.isOwn = true then
      (s.thread roomId).bind fun t => (t.step action).map fun t' => s.withThread roomId t t'
    else none

/-- Runs of the server: its rooms are numbered from 1 and the descriptors of its
queues differ. -/
def system : TransitionSystem Server ServerAction where
  init s := ∃ newClientsEvfd inputEvfd outputEvfd roomCount maxPlayerCount,
    (newClientsEvfd :: (List.range roomCount).flatMap fun i =>
      [inputEvfd (i + 1), outputEvfd (i + 1)]).Nodup ∧
    IdleUsersRoom.start { evfd := newClientsEvfd }
      (IdleUsersRoom.createRooms inputEvfd outputEvfd roomCount)
      maxPlayerCount = .ok s.idle ∧ s.pc = .waiting ∧ s.games = ∅ ∧ s.sockets = ∅
  step s a s' := s.step a = some s'

/-- A server with one room, as it begins. -/
def oneRoom : Option Server :=
  (IdleUsersRoom.start { evfd := 100 }
    (IdleUsersRoom.createRooms (fun _ => 101) (fun _ => 102) 1) 10).toOption.map
    ({ idle := · })

def connectClient (clientFd : Int) : List ServerAction :=
  [.accept clientFd, .newClientEvent, .addNewClient, .newClientsDone]

/-- The bytes of one message whose method and fields are given line by line. -/
def messageText (lines : List String) : Str :=
  lines.flatMap (fun line => line.toList ++ ['\n']) ++ END_SEQUENCE.text

/-- A read in which a client of the idle room sends one message. -/
def sendMessage (clientFd : Int) (lines : List String) : List ServerAction :=
  [.receive clientFd (some (messageText lines)), .message, .readDone]

/-- Two clients connect and enter their names, and both ask for the game of the
room. The second request has started the game when this ends. -/
def startGameOfTwo : List ServerAction :=
  connectClient 10 ++ connectClient 11 ++ sendMessage 10 ["ENTER_USERNAME", "username:A"] ++
    sendMessage 11 ["ENTER_USERNAME", "username:B"] ++ sendMessage 10 ["JOIN_GAME", "game_id:1"] ++
    [.receive 11 (some (messageText ["JOIN_GAME", "game_id:1"])), .message]

/-- Both clients have been taken by their game. -/
def joinGameOfTwo : List ServerAction :=
  startGameOfTwo ++
    [.sendClient, .sendClient, .readDone, .game 1 .newClientEvent,
      .game 1 (.takeNewClient 1000 1000), .game 1 (.takeNewClient 1000 1000), .game 1 .collected]

/-- A player of the game of two makes a move. -/
def moveOfTwo (clientFd : Int) (edge : String) : List ServerAction :=
  [.game 1 (.receive clientFd (some (messageText ["GAME_COMMAND", "add_edge:" ++ edge]))),
    .game 1 (.message 1000), .game 1 .readDone]

/-- The idle room hears of what a game has reported. -/
def hearOfGame : List ServerAction := [.stateChangeEvent 1, .applyStateChange, .stateChangesDone]

/-- One player hangs up, and the idle room hears of the pause. -/
def pauseGameOfTwo : List ServerAction :=
  joinGameOfTwo ++ .game 1 (.disconnect 11 EPOLLRDHUP) :: hearOfGame

/-- The other player hangs up too, and the idle room hears of the end. -/
def playGameOfTwo : List ServerAction :=
  pauseGameOfTwo ++
    [.game 1 (.disconnect 10 EPOLLRDHUP), .game 1 .stop, .game 1 .destroy] ++ hearOfGame

/-- One player leaves the game, which ends. -/
def endGameOfTwo : List ServerAction :=
  joinGameOfTwo ++
    [.game 1 (.receive 11 (some (messageText ["GAME_LEAVE"]))), .game 1 (.message 1000),
      .game 1 .readDone, .game 1 .stop, .game 1 .destroy]

/-- Both players return to the idle room when one of them leaves. -/
def leaveGameOfTwo : List ServerAction := endGameOfTwo ++ hearOfGame

theorem init_of_oneRoom {s : Server} (h : oneRoom = some s) : system.init s := by
  obtain ⟨idle, hstart, rfl⟩ := Option.map_eq_some_iff.mp h
  exact ⟨100, fun _ => 101, fun _ => 102, 1, 10, by decide, toOption_eq_some.mp hstart, rfl, rfl,
    rfl⟩

theorem exists_of_oneRoom {actions : List ServerAction} {p : Server → Bool}
    (h : (oneRoom.bind (TransitionSystem.runActions step actions)).any p = true) :
    ∃ s, system.Reachable s ∧ p s = true :=
  TransitionSystem.exists_reachable_of_any (fun _ _ _ => id) (fun _ => init_of_oneRoom) h

/-- A run in which both clients have been sent to their game. -/
theorem exists_run_sent : ∃ steps s, system.Run steps s ∧ s.thread 1 ≠ none := by
  have hcheck : ((oneRoom.bind (TransitionSystem.runActions step (startGameOfTwo ++ [.sendClient, .sendClient]))).any
      fun s => (s.thread 1).isSome) = true := by
    decide +kernel
  obtain ⟨s, hreachable, hthread⟩ := exists_of_oneRoom hcheck
  obtain ⟨steps, hrun⟩ := hreachable.exists_run
  exact ⟨steps, s, hrun, Option.isSome_iff_ne_none.mp hthread⟩

end Server

end UpsServer
