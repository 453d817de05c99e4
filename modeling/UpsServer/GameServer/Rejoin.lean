import UpsServer.GameServer.Messages
import UpsServer.GameServer.Places

namespace UpsServer.Server

/-- A client without a name enters the name of a user of a paused game, which no
connected client has. -/
structure MayRejoin (s : Server) (clientFd roomId : Int) (username : Str) (msg : ProtocolData) :
    Prop where
  paused :
    ∃ room, s.idle.gameRooms.get? roomId = some room ∧ room.gameState = .PAUSED ∧
      room.hasUsername username = true
  free : ∀ place, ∀ client ∈ s.clientsAt place, client.clientName ≠ username
  unnamed : ∃ client, s.idle.clientsMap.get? clientFd = some client ∧ client.hasName = false
  method : msg.method = .ENTER_USERNAME
  field : msg.data.get? "username".toList = some username

/-- The client has been given his name and sent to the game, and the game goes
on. -/
structure Rejoined (idle : IdleUsersRoom) (clientFd roomId : Int) (username : Str) : Prop where
  moved : idle.clientsMap.get? clientFd = none
  running : roomId ∉ idle.pausedGameRooms
  room : ∃ room, idle.gameRooms.get? roomId = some room ∧ room.gameState = .RUNNING ∧
    ∃ client ∈ room.gameInput.data, client.clientFd = clientFd ∧ client.clientName = username

end UpsServer.Server

namespace UpsServer.IdleUsersRoom

private theorem gameRooms_onClientDisconnect (idle : IdleUsersRoom) (clientFd : Int) :
    (idle.onClientDisconnect clientFd).gameRooms = idle.gameRooms := by
  unfold onClientDisconnect
  split <;> rfl

private theorem gameRooms_denyRequest {idle idle' : IdleUsersRoom} {clientFd : Int}
    (h : idle.denyRequest clientFd = .ok idle') : idle'.gameRooms = idle.gameRooms := by
  obtain ⟨client, _, h⟩ := bind_eq_ok.mp h
  split at h
  · cases h
    exact gameRooms_onClientDisconnect idle client.clientFd
  · cases h
    rfl

/-- A name that a room records is taken. -/
theorem isUsernameTaken_of_hasUsername {idle : IdleUsersRoom} {roomId : Int} {room : GameRoom}
    {username : Str} (client : ProtocolClient) (hroom : idle.gameRooms.get? roomId = some room)
    (huser : room.hasUsername username = true) : idle.isUsernameTaken client username = true := by
  have hany : idle.gameRooms.any (fun _ room => room.hasUsername username) = true :=
    UnorderedMap.any_eq_true.mpr ⟨roomId, room, hroom, huser⟩
  rw [isUsernameTaken, hany, Bool.or_true, Bool.true_or]

end UpsServer.IdleUsersRoom

namespace UpsServer.Server

open IdleUsersRoom

/-- The name is denied, because the search through all rooms finds the paused
game too. -/
theorem gameRooms_of_mayRejoin {s : Server} {clientFd roomId : Int} {username : Str}
    {msg : ProtocolData} {idle : IdleUsersRoom} {newGame : Option NewGame}
    (h : s.MayRejoin clientFd roomId username msg)
    (hprocess : s.idle.processClientMessage msg clientFd = .ok (idle, newGame)) :
    idle.gameRooms = s.idle.gameRooms := by
  obtain ⟨room, hroom, _, huser⟩ := h.paused
  obtain ⟨client, hclient, hunnamed⟩ := h.unnamed
  rw [processClientMessage, derefClient_eq_ok.mpr hclient, ok_bind, h.method] at hprocess
  simp only [h.field, hunnamed, Bool.false_eq_true, if_false] at hprocess
  rw [enterUsername, derefClient_eq_ok.mpr hclient, ok_bind,
    if_pos (isUsernameTaken_of_hasUsername client hroom huser)] at hprocess
  exact gameRooms_denyRequest (startsNothing_eq_ok.mp hprocess).1

/-- A game whose room has not changed is still paused. -/
theorem not_rejoined_of_gameRooms {s : Server} {clientFd roomId : Int} {username : Str}
    {msg : ProtocolData} {idle : IdleUsersRoom} (h : s.MayRejoin clientFd roomId username msg)
    (hrooms : idle.gameRooms = s.idle.gameRooms) : ¬ Rejoined idle clientFd roomId username := by
  intro hrejoined
  obtain ⟨room, hroom, hpaused, _⟩ := h.paused
  obtain ⟨room', hroom', hrunning, _⟩ := hrejoined.room
  rw [hrooms, hroom] at hroom'
  cases hroom'
  rw [hpaused] at hrunning
  cases hrunning

/-- Nobody ever rejoins a paused game. -/
theorem never_rejoins {s : Server} {clientFd roomId : Int} {username : Str} {msg : ProtocolData}
    (h : s.MayRejoin clientFd roomId username msg) :
    ¬ ∃ idle newGame, s.idle.processClientMessage msg clientFd = .ok (idle, newGame) ∧
      Rejoined idle clientFd roomId username := by
  rintro ⟨idle, newGame, hprocess, hrejoined⟩
  exact not_rejoined_of_gameRooms h (gameRooms_of_mayRejoin h hprocess) hrejoined

def enterNameB : ProtocolData :=
  ⟨.ENTER_USERNAME, (∅ : UnorderedMap Str Str).set "username".toList "B".toList⟩

/-- The player who disconnected may rejoin. -/
theorem mayRejoin_pauseGameOfTwo :
    ∃ s, system.Reachable s ∧ s.MayRejoin 12 1 "B".toList enterNameB := by
  have hcheck : ((oneRoom.bind (TransitionSystem.runActions step
      (pauseGameOfTwo ++ connectClient 12))).any fun s =>
      ((s.idle.gameRooms.get? 1).any fun room =>
        room.gameState == .PAUSED && room.hasUsername "B".toList) &&
        decide (∀ place ∈ s.places, ∀ client ∈ s.clientsAt place, client.clientName ≠ "B".toList) &&
        ((s.idle.clientsMap.get? 12).any fun client => !client.hasName)) = true := by
    decide +kernel
  obtain ⟨s, hreachable, hstate⟩ := exists_of_oneRoom hcheck
  simp only [Bool.and_eq_true, Option.any_eq_true, beq_iff_eq, decide_eq_true_eq,
    Bool.not_eq_true'] at hstate
  obtain ⟨⟨hpaused, hfree⟩, hunnamed⟩ := hstate
  refine ⟨s, hreachable, hpaused, fun place client hclient => ?_, hunnamed, rfl, rfl⟩
  by_cases hplace : place ∈ s.places
  · exact hfree place hplace client hclient
  · rw [clientsAt_of_notMem hplace] at hclient
    exact (Multiset.notMem_zero _ hclient).elim

theorem never_rejoins_pauseGameOfTwo :
    ∃ s, system.Reachable s ∧ s.MayRejoin 12 1 "B".toList enterNameB ∧
      ¬ ∃ idle newGame, s.idle.processClientMessage enterNameB 12 = .ok (idle, newGame) ∧
      Rejoined idle 12 1 "B".toList := by
  obtain ⟨s, hs, hmay⟩ := mayRejoin_pauseGameOfTwo
  exact ⟨s, hs, hmay, never_rejoins hmay⟩

/-- The player who disconnected is denied. -/
theorem not_rejoins_pauseGameOfTwo : ¬ ∀ s clientFd roomId username msg, system.Reachable s →
    s.MayRejoin clientFd roomId username msg →
    ∃ idle newGame, s.idle.processClientMessage msg clientFd = .ok (idle, newGame) ∧
      Rejoined idle clientFd roomId username := by
  intro hall
  obtain ⟨s, hs, hmay⟩ := mayRejoin_pauseGameOfTwo
  obtain ⟨idle, newGame, hprocess, hrejoined⟩ := hall s 12 1 "B".toList enterNameB hs hmay
  exact not_rejoined_of_gameRooms hmay (gameRooms_of_mayRejoin hmay hprocess) hrejoined

end UpsServer.Server
