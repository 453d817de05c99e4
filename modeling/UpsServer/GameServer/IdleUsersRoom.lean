import Mathlib.Data.Finset.Sort
import UpsServer.GameRoom.RoomStructs
import UpsServer.Linux.Epoll

namespace UpsServer

/-- The callbacks of the idle room; a state change is reported by the output
queue of one of the game rooms. -/
inductive IdleHandler where
  | onNewClientConnect
  | onClientWrite
  | onClientDisconnect
  | onGameStateChange (roomId : Int)
deriving DecidableEq, Repr

/-- The idle room, with the sockets that destructors have closed on its thread.
A pointer to a client is the descriptor `clientsMap` stores him under, a pointer
to a game room is the number of the room. -/
structure IdleUsersRoom where
  maxPlayerCount : Nat
  epoll : Epoll IdleHandler := { isEdgeTriggered := true }
  newClientsQueue : EventfdQueue Int
  clientsMap : UnorderedMap Int ProtocolClient := ∅
  gameRooms : UnorderedMap Int GameRoom
  pausedGameRooms : Finset Int := ∅
  waitingToJoinGame : UnorderedMap Int Int := ∅
  closedSockets : List Int := []
deriving DecidableEq

/-- A game whose thread has been started and the two clients that are still to be
sent to it. -/
structure NewGame where
  roomId : Int
  client1 : Int
  client2 : Int
deriving DecidableEq

namespace IdleUsersRoom

def MAX_REQ_DENIED_CNT : Nat := 5

/-- The client behind a reference or a pointer. -/
def derefClient (idle : IdleUsersRoom) (clientFd : Int) : Exec IdleUsersRoom ProtocolClient :=
  match idle.clientsMap.get? clientFd with
  | some client => .ok client
  | none => .error (.useAfterFree, idle)

/-- `_clientsMap.at`. -/
def clientAt (idle : IdleUsersRoom) (clientFd : Int) : Exec IdleUsersRoom ProtocolClient :=
  match idle.clientsMap.get? clientFd with
  | some client => .ok client
  | none => .error (.outOfRange "unordered_map::at", idle)

/-- The game room behind a reference. Rooms are never destroyed. -/
def derefRoom (idle : IdleUsersRoom) (roomId : Int) : Exec IdleUsersRoom GameRoom :=
  match idle.gameRooms.get? roomId with
  | some room => .ok room
  | none => .error (.useAfterFree, idle)

def modifyClient (idle : IdleUsersRoom) (clientFd : Int) (f : ProtocolClient → ProtocolClient) :
    IdleUsersRoom :=
  { idle with clientsMap := idle.clientsMap.modify clientFd f }

def modifyRoom (idle : IdleUsersRoom) (roomId : Int) (f : GameRoom → GameRoom) : IdleUsersRoom :=
  { idle with gameRooms := idle.gameRooms.modify roomId f }

def sendMsg (idle : IdleUsersRoom) (clientFd : Int) (msg : ProtocolData) :
    Exec IdleUsersRoom IdleUsersRoom := do
  let _ ← idle.derefClient clientFd
  pure (idle.modifyClient clientFd (·.sendMsg msg))

/-- The destructor of a client closes its socket. -/
def closeSocket (idle : IdleUsersRoom) (clientFd : Int) : IdleUsersRoom :=
  { idle with epoll := idle.epoll.kernelClose clientFd, closedSockets := idle.closedSockets ++ [clientFd] }

/-- Remove the socket from our epoll. -/
def unwatchClient (idle : IdleUsersRoom) (clientFd : Int) : IdleUsersRoom :=
  { idle with epoll := idle.epoll.removeDescriptor clientFd }

def onClientDisconnect (idle : IdleUsersRoom) (clientFd : Int) : IdleUsersRoom :=
  match idle.clientsMap.get? clientFd with
  | some client =>
    -- Clear any possible waiting request and remove client's object
    { (idle.unwatchClient clientFd).closeSocket client.clientFd with
      waitingToJoinGame := idle.waitingToJoinGame.erase clientFd
      clientsMap := idle.clientsMap.erase clientFd }
  | none => idle.unwatchClient clientFd

def denyRequest (idle : IdleUsersRoom) (clientFd : Int) : Exec IdleUsersRoom IdleUsersRoom := do
  let client ← idle.derefClient clientFd
  if client.reqDeniedCnt ≥ MAX_REQ_DENIED_CNT then pure (idle.onClientDisconnect client.clientFd)
  else pure (idle.modifyClient clientFd ProtocolClient.sendReqDeniedMsg)

def acceptRequest (idle : IdleUsersRoom) (clientFd : Int) : Exec IdleUsersRoom IdleUsersRoom :=
  idle.sendMsg clientFd (newProtocolMessage .REQ_ACCEPTED [])

/-- The user names are given when a new game starts. -/
def setGameAsRunning (idle : IdleUsersRoom) (roomId : Int) : IdleUsersRoom :=
  { idle.modifyRoom roomId ({ · with gameState := .RUNNING }) with
    pausedGameRooms := idle.pausedGameRooms.erase roomId }

def setGameAsPaused (idle : IdleUsersRoom) (roomId : Int) : IdleUsersRoom :=
  { idle.modifyRoom roomId ({ · with gameState := .PAUSED }) with
    pausedGameRooms := insert roomId idle.pausedGameRooms }

def setGameAsIdle (idle : IdleUsersRoom) (roomId : Int) : IdleUsersRoom :=
  { idle.modifyRoom roomId (fun room => { room with gameState := .IDLE }.removeAllUsers) with
    pausedGameRooms := idle.pausedGameRooms.erase roomId }

def sendClientToGameThread (idle : IdleUsersRoom) (roomId clientFd : Int) : Exec IdleUsersRoom IdleUsersRoom := do
  let client ← idle.derefClient clientFd
  let idle := { idle.unwatchClient client.clientFd with waitingToJoinGame := idle.waitingToJoinGame.erase clientFd }
  let moved ← idle.clientAt client.clientFd
  let _ ← idle.derefRoom roomId
  pure { idle.modifyRoom roomId (GameRoom.pushInput moved) with
    clientsMap := idle.clientsMap.erase client.clientFd }

/-- Another client of the idle room has this name. -/
def hasNamesake (idle : IdleUsersRoom) (client : ProtocolClient) (username : Str) : Bool :=
  idle.clientsMap.any fun _ other =>
    other.hasName && other.clientFd != client.clientFd && other.clientName == username

/-- A paused game with a user of this name. -/
def pausedRoomOf (idle : IdleUsersRoom) (username : Str) : Option Int :=
  (idle.pausedGameRooms.sort (· ≤ ·)).find? fun roomId =>
    (idle.gameRooms.get? roomId).any (·.hasUsername username)

/-- One of the three searches of `_enterUsername` finds the name. -/
def isUsernameTaken (idle : IdleUsersRoom) (client : ProtocolClient) (username : Str) : Bool :=
  -- Check if there already is user with this name in the idle room
  idle.hasNamesake client username ||
  -- Check if user with this name exist in an active game room
  idle.gameRooms.any (fun _ room => room.hasUsername username) ||
  -- Check if user with this name exists in a paused game room
  (idle.pausedRoomOf username).isSome

def enterUsername (idle : IdleUsersRoom) (clientFd : Int) (username : Str) :
    Exec IdleUsersRoom IdleUsersRoom := do
  let client ← idle.derefClient clientFd
  if idle.isUsernameTaken client username then idle.denyRequest clientFd
  else
    let idle := idle.modifyClient clientFd (·.setClientName username)
    -- Check if user is rejoining a paused game
    match idle.pausedRoomOf username with
    | some pausedRoom => do
      let idle ← idle.sendClientToGameThread pausedRoom clientFd
      pure (idle.setGameAsRunning pausedRoom)
    | none => idle.acceptRequest clientFd

/-- The number of the room a client asks to join, if the room exists and is
idle. -/
def joinableRoom (idle : IdleUsersRoom) (gameIdStr : Str) : Option Int :=
  match stoi gameIdStr with
  | .error _ => none
  | .ok gameId =>
    if (idle.gameRooms.get? gameId).any (·.gameState == .IDLE) then some gameId else none

/-- A client who is waiting for a game. Nobody else waits for the same game, so
the order of the search is of no consequence. -/
def waitingClient (idle : IdleUsersRoom) (gameId : Int) : Option Int :=
  (idle.waitingToJoinGame.keys.sort (· ≤ ·)).find? fun clientFd =>
    idle.waitingToJoinGame.get? clientFd == some gameId

/-- The room is entered as running with the names of both clients. -/
def setNewGameAsRunning (idle : IdleUsersRoom) (roomId : Int) (username1 username2 : Str) :
    Exec IdleUsersRoom IdleUsersRoom := do
  let idle := idle.setGameAsRunning roomId
  let room ← idle.derefRoom roomId
  let room ← withState idle (room.addUser username1)
  let room ← withState idle (room.addUser username2)
  pure (idle.modifyRoom roomId fun _ => room)

/-- The thread of the game is started when this function returns. -/
def newGameThread (idle : IdleUsersRoom) (client1 client2 roomId : Int) :
    Exec IdleUsersRoom IdleUsersRoom := do
  let room ← idle.derefRoom roomId
  -- Register outputQueue events in our epoll
  let epoll ← withState idle
    ((idle.epoll.addDescriptor room.gameOutput.evfd).addEventHandler room.gameOutput.evfd
    EPOLLIN (.onGameStateChange roomId))
  let player1 ← idle.derefClient client1
  let player2 ← idle.derefClient client2
  { idle with epoll := epoll }.setNewGameAsRunning roomId player1.clientName player2.clientName

/-- A handler that starts no game. -/
def startsNothing (x : Exec IdleUsersRoom IdleUsersRoom) :
    Exec IdleUsersRoom (IdleUsersRoom × Option NewGame) := do
  let idle ← x
  pure (idle, none)

/-- Save this user as waiting to join. -/
def waitForGame (idle : IdleUsersRoom) (clientFd gameId : Int) : Exec IdleUsersRoom IdleUsersRoom :=
  { idle with waitingToJoinGame := idle.waitingToJoinGame.set clientFd gameId }.sendMsg clientFd
    (newProtocolMessage .GAME_IDLE [])

/-- The game can be started, two clients are waiting for it. -/
def joinWaitingClient (idle : IdleUsersRoom) (client1 client2 gameId : Int) :
    Exec IdleUsersRoom (IdleUsersRoom × Option NewGame) := do
  let player1 ← idle.derefClient client1
  let player2 ← idle.derefClient client2
  -- Client is trying to join the same room again
  if player1.clientFd = player2.clientFd then startsNothing (idle.denyRequest client1)
  else do
    let idle ← idle.newGameThread client1 client2 gameId
    pure (idle, some ⟨gameId, client1, client2⟩)

/-- What is left to do of a game that starts are the two calls of
`_sendClientToGameThread`. -/
def joinGameRoom (idle : IdleUsersRoom) (client1 : Int) (gameIdStr : Str) :
    Exec IdleUsersRoom (IdleUsersRoom × Option NewGame) :=
  match idle.joinableRoom gameIdStr with
  | none => startsNothing (idle.denyRequest client1)
  | some gameId =>
    match idle.waitingClient gameId with
    | some client2 => idle.joinWaitingClient client1 client2 gameId
    | none => startsNothing (idle.waitForGame client1 gameId)

/-- A line of the room list. -/
def roomLine (idle : IdleUsersRoom) (room : GameRoom) : Option Int → Exec IdleUsersRoom (List Str)
  | some waiting => do
    let client ← idle.derefClient waiting
    pure
      [client.clientName, [], (toString room.roomId).toList, (toString room.gameState.toNat).toList]
  | none =>
    pure
      [room.usernameA, room.usernameB, (toString room.roomId).toList,
        (toString room.gameState.toNat).toList]

/-- The lines of the rooms in the order of their numbers. -/
def getRoomList (idle : IdleUsersRoom) : Exec IdleUsersRoom ProtocolData := do
  let roomList ← (idle.gameRooms.keys.sort (· ≤ ·)).mapM fun roomId =>
    match idle.gameRooms.get? roomId with
    | some room => idle.roomLine room (idle.waitingClient roomId)
    | none => pure []
  pure (newProtocolMessage .REQ_ACCEPTED [("room_list".toList, serializeObjectList roomList)])

/-- The rooms in the order of the list. -/
def listedRooms (idle : IdleUsersRoom) : List Int := idle.gameRooms.keys.sort (· ≤ ·)

theorem mem_listedRooms {idle : IdleUsersRoom} {roomId : Int} :
    roomId ∈ idle.listedRooms ↔ roomId ∈ idle.gameRooms.keys :=
  Finset.mem_sort _

theorem pairwise_listedRooms (idle : IdleUsersRoom) : idle.listedRooms.Pairwise (· < ·) :=
  (Finset.sortedLT_sort idle.gameRooms.keys).pairwise

def sendRoomList (idle : IdleUsersRoom) (clientFd : Int) : Exec IdleUsersRoom IdleUsersRoom := do
  let roomList ← idle.getRoomList
  idle.sendMsg clientFd roomList

/-- In idle users room we're only allowing these following types of methods. -/
def processClientMessage (idle : IdleUsersRoom) (msg : ProtocolData) (clientFd : Int) :
    Exec IdleUsersRoom (IdleUsersRoom × Option NewGame) := do
  let client ← idle.derefClient clientFd
  match msg.method with
  | .TERMINATE_CONNECTION => pure (idle.onClientDisconnect client.clientFd, none)
  | .ENTER_USERNAME =>
    match msg.data.get? "username".toList with
    | some username =>
      if client.hasName then startsNothing (idle.denyRequest clientFd)
      else startsNothing (idle.enterUsername clientFd username)
    | none => startsNothing (idle.denyRequest clientFd)
  | .GET_ROOM_LIST =>
    if client.hasName then startsNothing (idle.sendRoomList clientFd) else startsNothing (idle.denyRequest clientFd)
  | .JOIN_GAME =>
    match msg.data.get? "game_id".toList with
    | some gameId =>
      if client.hasName then idle.joinGameRoom clientFd gameId else startsNothing (idle.denyRequest clientFd)
    | none => startsNothing (idle.denyRequest clientFd)
  | _ => startsNothing (idle.denyRequest clientFd)

/-- Stores the object of a client. An object that was stored for the descriptor
before is destroyed. -/
def storeClient (idle : IdleUsersRoom) (clientFd : Int) (client : ProtocolClient) : IdleUsersRoom :=
  match idle.clientsMap.get? clientFd with
  | some previous =>
    { idle.closeSocket previous.clientFd with clientsMap := idle.clientsMap.set clientFd client }
  | none => { idle with clientsMap := idle.clientsMap.set clientFd client }

/-- Register this client with epoll and greet him. -/
def welcomeClient (idle : IdleUsersRoom) (clientFd : Int) : Exec IdleUsersRoom IdleUsersRoom := do
  let epoll ← withState idle (idle.epoll.watchClient clientFd .onClientWrite .onClientDisconnect)
  { idle with epoll := epoll }.sendMsg clientFd (newProtocolMessage .CONNECTED_OK [])

def addClientBack (idle : IdleUsersRoom) : Option ProtocolClient → Exec IdleUsersRoom IdleUsersRoom
  | some client => (idle.storeClient client.clientFd client).welcomeClient client.clientFd
  | none => pure idle

/-- A turn of the loop of `_onNewClientConnect` for a descriptor that was popped
from the queue. -/
def addNewClient (idle : IdleUsersRoom) (clientFd : Int) : Exec IdleUsersRoom IdleUsersRoom :=
  let idle := idle.storeClient clientFd { clientFd := clientFd }
  -- To prevent exceeding the player limit possible solution is to disconnect
  if idle.clientsMap.keys.card > idle.maxPlayerCount then pure (idle.onClientDisconnect clientFd)
  else idle.welcomeClient clientFd

/-- The first part of `_onClientWrite`: the messages that were received. A client
whose data cannot be read or parsed is dropped. -/
def receiveMessages (idle : IdleUsersRoom) (clientFd : Int) (received : Option Str) :
    Exec IdleUsersRoom (List ProtocolData × IdleUsersRoom) := do
  let client ← idle.clientAt clientFd
  match client.receiveMsg received with
  | .error _ => pure ([], idle.onClientDisconnect client.clientFd)
  | .ok (messages, client) => pure (messages.getD [], idle.modifyClient clientFd fun _ => client)

/-- A turn of the loop of `_onGameStateChange` for a change that was popped from
the output of the room. Only the change to IDLE brings clients back. -/
def applyStateChange (idle : IdleUsersRoom) (roomId : Int) (newState : GameStateChange) :
    Exec IdleUsersRoom IdleUsersRoom :=
  match newState.newState with
  | .IDLE => do
    -- Add any clients sent back from game room
    let idle ← idle.addClientBack newState.client1
    let idle ← idle.addClientBack newState.client2
    pure (idle.setGameAsIdle roomId)
  | .RUNNING => pure idle
  | .PAUSED => pure (idle.setGameAsPaused roomId)

end IdleUsersRoom

end UpsServer
