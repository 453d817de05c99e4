import UpsServer.GameRoom.Handover
import UpsServer.GameServer.Server
import UpsServer.Lib.Custody

namespace UpsServer

/-- Where the server keeps connected clients. -/
inductive Place where
  | newClientsQueue
  | clientsMap
  | player (roomId : Int) (ref : PlayerRef)
  | gameInput (roomId : Int)
  | gameOutput (roomId : Int)
deriving DecidableEq

namespace GameStateChange

/-- The clients who return with a change. -/
def clients (change : GameStateChange) : Multiset ProtocolClient :=
  change.client1.elim 0 ({·}) + change.client2.elim 0 ({·})

theorem map_clientFd_clients (change : GameStateChange) :
    change.clients.map (·.clientFd) = change.clientFds := by
  rw [clients, clientFds]
  cases change.client1 <;> cases change.client2 <;> rfl

end GameStateChange

namespace Server

/-- The clients at a place. The queue of the accept thread holds descriptors for
which no client has been created yet. -/
def clientsAt (s : Server) : Place → Multiset ProtocolClient
  | .newClientsQueue => 0
  | .clientsMap => s.idle.clientsMap.tokens ({·})
  | .player roomId ref =>
    (s.games.get? roomId).elim 0 fun t => (t.game.player ref).client.elim 0 ({·})
  | .gameInput roomId =>
    (s.idle.gameRooms.get? roomId).elim 0 fun room => (room.gameInput.data : Multiset _)
  | .gameOutput roomId => (s.idle.gameRooms.get? roomId).elim 0 fun room =>
      (room.gameOutput.data : Multiset GameStateChange).bind (·.clients)

/-- The descriptors at a place. -/
def fdsAt (s : Server) : Place → Multiset Int
  | .newClientsQueue => s.idle.newClientsQueue.data
  | place => (s.clientsAt place).map (·.clientFd)

/-- The places there are. -/
def places (s : Server) : Multiset Place :=
  .newClientsQueue ::ₘ .clientsMap ::ₘ
    ((s.idle.gameRooms.keys.val.bind fun roomId => {.gameInput roomId, .gameOutput roomId}) +
      s.games.keys.val.bind fun roomId => {.player roomId .player1, .player roomId .player2})

/-- All descriptors the server keeps. -/
def heldFds (s : Server) : Multiset Int := s.places.bind s.fdsAt

/-- The event loop of the game of a room has not ended. -/
def GameRuns (s : Server) (roomId : Int) : Prop :=
  ∃ t, s.games.get? roomId = some t ∧ t.pc ≠ .stopping

/-- A live thread still reads the place. -/
def IsRead (s : Server) : Place → Prop
  | .gameInput roomId => s.GameRuns roomId
  | _ => True

/-- Every client whose socket is open is kept at exactly one place, and a live
thread still reads it. -/
def NoClientLost (s : Server) : Prop :=
  ∀ clientFd ∈ s.sockets, ∃ place, Custody.HeldOnceAt s.fdsAt clientFd place ∧ s.IsRead place

private theorem player_mem_places {s : Server} {roomId : Int} (h : roomId ∈ s.games.keys) (ref : PlayerRef) :
    .player roomId ref ∈ s.places := by
  simp only [places, Multiset.mem_cons, Multiset.mem_add, Multiset.mem_bind]
  exact .inr (.inr (.inr ⟨roomId, h, by cases ref <;> simp⟩))

private theorem queues_mem_places {s : Server} {roomId : Int} (h : roomId ∈ s.idle.gameRooms.keys) :
    .gameInput roomId ∈ s.places ∧ .gameOutput roomId ∈ s.places := by
  simp only [places, Multiset.mem_cons, Multiset.mem_add, Multiset.mem_bind]
  exact ⟨.inr (.inr (.inl ⟨roomId, h, by simp⟩)), .inr (.inr (.inl ⟨roomId, h, by simp⟩))⟩

theorem clientsAt_of_notMem {s : Server} {place : Place} (h : place ∉ s.places) :
    s.clientsAt place = 0 := by
  cases place with
  | newClientsQueue | clientsMap => simp [places] at h
  | player roomId ref =>
    have hnone : s.games.get? roomId = none :=
      UnorderedMap.notMem_keys.mp fun hmem => h (player_mem_places hmem ref)
    rw [clientsAt, hnone]
    rfl
  | gameInput roomId =>
    have hnone : s.idle.gameRooms.get? roomId = none :=
      UnorderedMap.notMem_keys.mp fun hmem => h (queues_mem_places hmem).1
    rw [clientsAt, hnone]
    rfl
  | gameOutput roomId =>
    have hnone : s.idle.gameRooms.get? roomId = none :=
      UnorderedMap.notMem_keys.mp fun hmem => h (queues_mem_places hmem).2
    rw [clientsAt, hnone]
    rfl

theorem fdsAt_of_notMem {s : Server} {place : Place} (h : place ∉ s.places) :
    s.fdsAt place = 0 := by
  cases place with
  | newClientsQueue => simp [places] at h
  | _ =>
    rw [fdsAt, clientsAt_of_notMem h]
    · rfl
    · intro heq
      cases heq

end Server

/-- The descriptors of the clients in the queues of a room. -/
def GameRoom.heldFds (room : GameRoom) : Multiset Int :=
  inputFds room.gameInput + outputFds room.gameOutput

theorem GameRoom.heldFds_pushInput (client : ProtocolClient) (room : GameRoom) :
    (room.pushInput client).heldFds = room.heldFds + {client.clientFd} := by
  rw [heldFds, heldFds, pushInput, inputFds_push, add_right_comm]

/-- The descriptors the idle room keeps. -/
def IdleUsersRoom.heldFds (idle : IdleUsersRoom) : Multiset Int :=
  idle.newClientsQueue.data +
    (idle.clientsMap.tokens (fun client => {client.clientFd}) + idle.gameRooms.tokens (·.heldFds))

/-- The descriptors by the objects that keep them. -/
theorem Server.heldFds_eq (s : Server) :
    s.heldFds = s.idle.heldFds + s.games.tokens (·.game.playerFds) := by
  have hmap : s.fdsAt .clientsMap = s.idle.clientsMap.tokens (fun client => {client.clientFd}) := by
    rw [fdsAt, clientsAt, UnorderedMap.tokens, UnorderedMap.tokens, Multiset.map_bind]
    · refine Multiset.bind_congr fun clientFd _ => ?_
      cases s.idle.clientsMap.get? clientFd <;> rfl
    · intro heq
      cases heq
  have hrooms : (s.idle.gameRooms.keys.val.bind fun roomId =>
      s.fdsAt (.gameInput roomId) + s.fdsAt (.gameOutput roomId)) =
      s.idle.gameRooms.tokens (·.heldFds) := by
    refine Multiset.bind_congr fun roomId _ => ?_
    simp only [fdsAt, clientsAt]
    cases s.idle.gameRooms.get? roomId with
    | none => rfl
    | some room =>
      simp only [Option.elim, GameRoom.heldFds, inputFds, outputFds, Multiset.map_bind,
        GameStateChange.map_clientFd_clients, Multiset.map_coe]
  have hgames : (s.games.keys.val.bind fun roomId =>
      s.fdsAt (.player roomId .player1) +
        s.fdsAt (.player roomId .player2)) = s.games.tokens (·.game.playerFds) := by
    refine Multiset.bind_congr fun roomId _ => ?_
    simp only [fdsAt, clientsAt]
    cases s.games.get? roomId with
    | none => rfl
    | some t =>
      simp only [Option.elim, Game.playerFds, Game.player]
      cases t.game.player1.client <;> cases t.game.player2.client <;> rfl
  rw [heldFds, places, Multiset.cons_bind, Multiset.cons_bind, Multiset.add_bind,
    Multiset.bind_assoc, Multiset.bind_assoc, hmap, IdleUsersRoom.heldFds, ← hrooms, ← hgames]
  simp only [Multiset.insert_eq_cons, Multiset.cons_bind, Multiset.singleton_bind]
  change (s.idle.newClientsQueue.data : Multiset Int) + _ = _
  ac_rfl

end UpsServer
