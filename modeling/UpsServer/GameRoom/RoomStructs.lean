import UpsServer.Linux.EventfdQueue
import UpsServer.Protocol.ProtocolClient

namespace UpsServer

inductive GameState where
  | IDLE
  | RUNNING
  | PAUSED
deriving DecidableEq, Repr

/-- The value of the enumerator. -/
def GameState.toNat : GameState → Nat
  | .IDLE => 0
  | .RUNNING => 1
  | .PAUSED => 2

/-- The message of a game to the idle room. One of the clients, or both, can
return with it. -/
structure GameStateChange where
  newState : GameState
  client1 : Option ProtocolClient := none
  client2 : Option ProtocolClient := none
deriving DecidableEq

/-- What the idle room knows about a game. -/
structure GameRoom where
  roomId : Nat
  usernameA : Str := []
  usernameB : Str := []
  gameState : GameState := .IDLE
  gameInput : EventfdQueue ProtocolClient
  gameOutput : EventfdQueue GameStateChange
deriving DecidableEq

namespace GameRoom

def hasUsername (room : GameRoom) (username : Str) : Bool :=
  room.usernameA == username || room.usernameB == username

def getUserCount (room : GameRoom) : Nat :=
  if room.usernameA.isEmpty && room.usernameB.isEmpty then 0
  else if !room.usernameA.isEmpty && !room.usernameB.isEmpty then 2
  else 1

def addUser (room : GameRoom) (username : Str) : Except Fault GameRoom :=
  if room.getUserCount ≥ 2 then
    .error
      (.runtimeError ("GameRoom::addUser: ERROR - Cannot add user " ++ String.ofList username ++
      " this game already has 2 players!"))
  else if room.usernameA.isEmpty then .ok { room with usernameA := username }
  else .ok { room with usernameB := username }

def removeAllUsers (room : GameRoom) : GameRoom := { room with usernameA := [], usernameB := [] }

/-- IdleRoom can transfer clients to game room via this queue. -/
def pushInput (client : ProtocolClient) (room : GameRoom) : GameRoom :=
  { room with gameInput := room.gameInput.push client }

/-- The room when the front of its output has been popped. -/
def withOutput (gameOutput : EventfdQueue GameStateChange) (room : GameRoom) : GameRoom :=
  { room with gameOutput := gameOutput }

end GameRoom

end UpsServer
