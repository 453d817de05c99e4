import UpsServer.GameServer.Messages
import UpsServer.GameServer.Places

namespace UpsServer.IdleUsersRoom

/-- The descriptors of the clients of the idle room. -/
def clientFds (idle : IdleUsersRoom) : Multiset Int :=
  idle.clientsMap.tokens fun client => {client.clientFd}

/-- Clients with the descriptors `fds` come to the idle room and some clients are
dropped; the rooms and the queue of new clients stay as they are. -/
structure Admits (fds : Multiset Int) (idle idle' : IdleUsersRoom) : Prop where
  stored : idle.StoredUnderOwnFd → idle'.StoredUnderOwnFd
  sockets : idle'.clientFds + idle'.closedSockets = idle.clientFds + idle.closedSockets + fds
  closed : idle.closedSockets <+: idle'.closedSockets
  gameRooms : idle'.gameRooms = idle.gameRooms
  newClientsQueue : idle'.newClientsQueue = idle.newClientsQueue

variable {idle idle' idle'' : IdleUsersRoom} {fds fds' : Multiset Int}

theorem Admits.trans (h : Admits fds idle idle') (h' : Admits fds' idle' idle'') :
    Admits (fds + fds') idle idle'' where
  stored := h'.stored ∘ h.stored
  sockets := by rw [h'.sockets, h.sockets, add_assoc]
  closed := h.closed.trans h'.closed
  gameRooms := h'.gameRooms.trans h.gameRooms
  newClientsQueue := h'.newClientsQueue.trans h.newClientsQueue

theorem Admits.trans_zero (h : Admits fds idle idle') (h' : Admits 0 idle' idle'') :
    Admits fds idle idle'' :=
  add_zero fds ▸ h.trans h'

/-- Admitted clients are held from then on. -/
theorem Admits.heldFds (h : Admits fds idle idle') :
    idle'.heldFds + idle'.closedSockets = idle.heldFds + idle.closedSockets + fds := by
  have hsockets := h.sockets
  rw [clientFds, clientFds] at hsockets
  rw [IdleUsersRoom.heldFds, IdleUsersRoom.heldFds, h.gameRooms, h.newClientsQueue, add_assoc,
    add_right_comm, hsockets]
  ac_rfl

/-- A step that leaves the clients alone. -/
theorem admits_of_same (hclients : idle'.clientsMap = idle.clientsMap)
    (hclosed : idle'.closedSockets = idle.closedSockets) (hrooms : idle'.gameRooms = idle.gameRooms)
    (hqueue : idle'.newClientsQueue = idle.newClientsQueue) : Admits 0 idle idle' where
  stored h := by rwa [StoredUnderOwnFd, hclients]
  sockets := by rw [clientFds, hclients, hclosed, add_zero]; rfl
  closed := by rw [hclosed]
  gameRooms := hrooms
  newClientsQueue := hqueue

theorem admits_modifyClient (idle : IdleUsersRoom) (clientFd : Int)
    {f : ProtocolClient → ProtocolClient}
    (hf : ∀ client,
        idle.clientsMap.get? clientFd = some client → (f client).clientFd = client.clientFd) :
    Admits 0 idle (idle.modifyClient clientFd f) where
  stored h := by
    intro fd client hclient
    rw [modifyClient, UnorderedMap.get?_modify] at hclient
    split at hclient
    · rename_i hfd
      subst hfd
      obtain ⟨client', hclient', rfl⟩ := Option.map_eq_some_iff.mp hclient
      exact (hf client' hclient').trans (h _ _ hclient')
    · exact h _ _ hclient
  sockets := by
    rw [clientFds, modifyClient, UnorderedMap.tokens_modify_of_eq, add_zero]
    · rfl
    · exact fun client hclient => by rw [hf client hclient]
  closed := List.prefix_rfl
  gameRooms := rfl
  newClientsQueue := rfl

private theorem admits_sendMsg {clientFd : Int} {msg : ProtocolData}
    (h : idle.sendMsg clientFd msg = .ok idle') : Admits 0 idle idle' := by
  obtain ⟨_, rfl⟩ := sendMsg_eq_ok.mp h
  exact admits_modifyClient idle clientFd fun _ _ => rfl

theorem storedUnderOwnFd_erase (h : idle.StoredUnderOwnFd) (clientFd : Int)
    (hclients : idle'.clientsMap = idle.clientsMap.erase clientFd) : idle'.StoredUnderOwnFd := by
  intro fd client hclient
  rw [hclients, UnorderedMap.get?_erase] at hclient
  obtain ⟨_, hclient⟩ := Option.ite_none_left_eq_some.mp hclient
  exact h _ _ hclient

/-- A client who is dropped has his socket closed. -/
theorem admits_onClientDisconnect (idle : IdleUsersRoom) (clientFd : Int) :
    Admits 0 idle (idle.onClientDisconnect clientFd) := by
  cases hclient : idle.clientsMap.get? clientFd with
  | none =>
    rw [onClientDisconnect, hclient]
    exact admits_of_same rfl rfl rfl rfl
  | some client =>
    rw [onClientDisconnect, hclient]
    refine ⟨fun h => storedUnderOwnFd_erase h clientFd rfl, ?_, List.prefix_append _ _, rfl, rfl⟩
    have herase :=
      idle.clientsMap.tokens_erase
        (fun client : ProtocolClient => ({client.clientFd} : Multiset Int)) clientFd
    rw [hclient, Option.elim] at herase
    simp only [clientFds, closeSocket, unwatchClient, ← Multiset.coe_add, Multiset.coe_singleton]
    rw [← herase]
    ac_rfl

theorem admits_storeClient (idle : IdleUsersRoom) {clientFd : Int} {client : ProtocolClient}
    (hfd : client.clientFd = clientFd) :
    Admits {clientFd} idle (idle.storeClient clientFd client) := by
  have hstored : ∀ idle' : IdleUsersRoom, idle'.clientsMap = idle.clientsMap.set clientFd client →
      idle.StoredUnderOwnFd → idle'.StoredUnderOwnFd := by
    intro idle' hclients h fd client' hclient'
    rw [hclients, UnorderedMap.get?_set] at hclient'
    split at hclient'
    · rename_i heq
      cases hclient'
      exact hfd.trans heq.symm
    · exact h _ _ hclient'
  have hset :=
    idle.clientsMap.tokens_set (fun client : ProtocolClient => ({client.clientFd} : Multiset Int))
      clientFd client
  rw [hfd] at hset
  cases hclient : idle.clientsMap.get? clientFd with
  | none =>
    rw [storeClient, hclient]
    rw [hclient, Option.elim, add_zero] at hset
    refine ⟨hstored _ rfl, ?_, List.prefix_rfl, rfl, rfl⟩
    rw [clientFds, hset, add_right_comm]
    rfl
  | some previous =>
    rw [storeClient, hclient]
    rw [hclient, Option.elim] at hset
    refine ⟨hstored _ rfl, ?_, List.prefix_append _ _, rfl, rfl⟩
    simp only [clientFds, closeSocket, ← Multiset.coe_add, Multiset.coe_singleton]
    rw [add_comm (idle.closedSockets : Multiset Int), ← add_assoc, hset, add_right_comm]

private theorem admits_welcomeClient {clientFd : Int} (h : idle.welcomeClient clientFd = .ok idle') :
    Admits 0 idle idle' := by
  obtain ⟨epoll, _, hsend⟩ := bind_eq_ok.mp h
  have hepoll : Admits 0 idle { idle with epoll := epoll } := admits_of_same rfl rfl rfl rfl
  exact hepoll.trans_zero (admits_sendMsg hsend)

theorem admits_addClientBack {client : Option ProtocolClient}
    (h : idle.addClientBack client = .ok idle') :
    Admits ((client.map (·.clientFd)).elim 0 ({·})) idle idle' := by
  cases client with
  | none =>
    cases h
    exact admits_of_same rfl rfl rfl rfl
  | some client => exact (admits_storeClient idle rfl).trans_zero (admits_welcomeClient h)

theorem admits_addNewClient {clientFd : Int} (h : idle.addNewClient clientFd = .ok idle') :
    Admits {clientFd} idle idle' := by
  have hstore : Admits {clientFd} idle (idle.storeClient clientFd { clientFd := clientFd }) :=
    admits_storeClient idle rfl
  simp only [addNewClient] at h
  split at h
  · cases h
    exact hstore.trans_zero (admits_onClientDisconnect _ clientFd)
  · exact hstore.trans_zero (admits_welcomeClient h)

/-- Answers that start no game. -/
theorem admits_answer {msg : ProtocolData} {clientFd : Int} {client : ProtocolClient}
    (h : Answer idle msg clientFd client idle' none) : Admits 0 idle idle' := by
  cases h with
  | removed => exact admits_onClientDisconnect idle clientFd
  | denied => exact admits_modifyClient idle clientFd fun _ _ => rfl
  | named =>
    refine (admits_modifyClient idle clientFd ?_).trans_zero (admits_modifyClient _ clientFd ?_)
    · exact fun _ _ => rfl
    · exact fun _ _ => rfl
  | listed => exact admits_modifyClient idle clientFd fun _ _ => rfl
  | @waits gameId =>
    have hwaits : Admits 0
        idle { idle with waitingToJoinGame := idle.waitingToJoinGame.set clientFd gameId } :=
      admits_of_same rfl rfl rfl rfl
    exact hwaits.trans_zero (admits_modifyClient _ clientFd fun _ _ => rfl)

theorem admits_receiveMessages {clientFd : Int} {received : Option Str}
    {messages : List ProtocolData}
    (h : idle.receiveMessages clientFd received = .ok (messages, idle')) : Admits 0 idle idle' := by
  obtain ⟨client, hclient, hreceive⟩ := bind_eq_ok.mp h
  rw [clientAt_eq_ok] at hclient
  split at hreceive
  · cases hreceive
    exact admits_onClientDisconnect idle client.clientFd
  · rename_i client' hmessages
    cases hreceive
    obtain ⟨parser, rfl⟩ := ProtocolClient.receiveMsg_eq_ok hmessages
    refine admits_modifyClient idle clientFd fun client'' hclient'' => ?_
    rw [hclient] at hclient''
    cases hclient''
    rfl

/-- A client is sent to a room: he leaves the idle room for the input of the
game. -/
theorem sendClientToGameThread_eq_ok {roomId clientFd : Int} (hstored : idle.StoredUnderOwnFd)
    (h : idle.sendClientToGameThread roomId clientFd = .ok idle') :
    ∃ client room, idle.clientsMap.get? clientFd = some client ∧ client.clientFd = clientFd ∧
      idle.gameRooms.get? roomId = some room ∧ idle' =
        { (idle.unwatchClient clientFd).modifyRoom roomId (GameRoom.pushInput client) with
          waitingToJoinGame := idle.waitingToJoinGame.erase clientFd
          clientsMap := idle.clientsMap.erase clientFd } := by
  obtain ⟨client, hclient, hrest⟩ := bind_eq_ok.mp h
  rw [derefClient_eq_ok] at hclient
  have hfd := hstored _ _ hclient
  rw [hfd] at hrest
  obtain ⟨moved, hmoved, hrest⟩ := bind_eq_ok.mp hrest
  obtain ⟨room, hroom, hsent⟩ := bind_eq_ok.mp hrest
  rw [clientAt_eq_ok] at hmoved
  rw [derefRoom_eq_ok] at hroom
  change idle.clientsMap.get? clientFd = some moved at hmoved
  rw [hclient] at hmoved
  cases hmoved
  cases hsent
  exact ⟨client, room, hclient, hfd, hroom, rfl⟩

/-- When a game starts its room is entered as running, and nothing moves. -/
theorem newGameThread_eq_ok {client1 client2 roomId : Int} (h : idle.newGameThread client1 client2 roomId = .ok idle') :
    ∃ usernameA usernameB epoll, idle' =
      { idle with
        epoll := epoll
        gameRooms := idle.gameRooms.modify roomId
          ({ · with gameState := .RUNNING, usernameA := usernameA, usernameB := usernameB })
        pausedGameRooms := idle.pausedGameRooms.erase roomId } := by
  have haddUser : ∀ (room room' : GameRoom) (username : Str), room.addUser username = .ok room' →
      ∃ usernameA usernameB, room' = { room with usernameA := usernameA, usernameB := usernameB } := by
    intro room room' username h
    unfold GameRoom.addUser at h
    split at h
    · cases h
    · split at h
      · cases h
        exact ⟨username, room.usernameB, rfl⟩
      · cases h
        exact ⟨room.usernameA, username, rfl⟩
  obtain ⟨room, hroom, hrest⟩ := bind_eq_ok.mp h
  obtain ⟨epoll, _, hrest⟩ := bind_eq_ok.mp hrest
  obtain ⟨player1, _, hrest⟩ := bind_eq_ok.mp hrest
  obtain ⟨player2, _, hrest⟩ := bind_eq_ok.mp hrest
  obtain ⟨running, hrunning, hrest⟩ := bind_eq_ok.mp hrest
  obtain ⟨room1, hroom1, hrest⟩ := bind_eq_ok.mp hrest
  obtain ⟨room2, hroom2, hstarted⟩ := bind_eq_ok.mp hrest
  rw [derefRoom_eq_ok] at hroom hrunning
  rw [withState_eq_ok] at hroom1 hroom2
  have hrunning' : (idle.gameRooms.modify roomId
      ({ · with gameState := .RUNNING })).get? roomId = some running := hrunning
  rw [UnorderedMap.get?_modify, if_pos rfl, hroom, Option.map_some, Option.some.injEq] at hrunning'
  obtain ⟨usernameA1, usernameB1, rfl⟩ := haddUser _ _ _ hroom1
  obtain ⟨usernameA2, usernameB2, rfl⟩ := haddUser _ _ _ hroom2
  subst hrunning'
  cases hstarted
  refine ⟨usernameA2, usernameB2, epoll, ?_⟩
  have hrooms : ((idle.gameRooms.modify roomId ({ · with gameState := .RUNNING })).modify roomId
      fun _ => { room with
        gameState := .RUNNING, usernameA := usernameA2, usernameB := usernameB2 }) =
      idle.gameRooms.modify roomId
        ({ · with gameState := .RUNNING, usernameA := usernameA2, usernameB := usernameB2 }) := by
    ext1 id
    simp only [UnorderedMap.get?_modify, if_true, hroom, Option.map_some]
    split <;> rfl
  simp only [modifyRoom, setGameAsRunning, hrooms]

/-- The clients of the idle room and of the game rooms gain and lose descriptors. -/
theorem heldFds_add {lost gained lost' gained' : Multiset Int}
    (hqueue : idle'.newClientsQueue.data = idle.newClientsQueue.data)
    (hclients : idle'.clientFds + lost = idle.clientFds + gained)
    (hrooms : idle'.gameRooms.tokens (·.heldFds) + lost' =
        idle.gameRooms.tokens (·.heldFds) + gained') :
    idle'.heldFds + (lost + lost') = idle.heldFds + (gained + gained') := by
  calc idle'.heldFds + (lost + lost')
      = idle.newClientsQueue.data +
        ((idle'.clientFds + lost) + (idle'.gameRooms.tokens (·.heldFds) + lost')) := by
        rw [heldFds, hqueue, clientFds]
        ac_rfl
    _ = idle.heldFds + (gained + gained') := by
        rw [hclients, hrooms, heldFds, clientFds]
        ac_rfl

theorem heldFds_of_rooms (hqueue : idle'.newClientsQueue.data = idle.newClientsQueue.data)
    (hclients : idle'.clientsMap = idle.clientsMap)
    (hrooms : idle'.gameRooms.tokens (·.heldFds) = idle.gameRooms.tokens (·.heldFds)) :
    idle'.heldFds = idle.heldFds := by
  rw [heldFds, heldFds, hqueue, hclients, hrooms]

theorem heldFds_newGameThread {client1 client2 roomId : Int}
    (h : idle.newGameThread client1 client2 roomId = .ok idle') : idle'.heldFds = idle.heldFds := by
  obtain ⟨usernameA, usernameB, epoll, rfl⟩ := newGameThread_eq_ok h
  exact heldFds_of_rooms rfl rfl (UnorderedMap.tokens_modify_of_eq _ _ _ fun _ _ => rfl)

/-- A client who is sent to a room is held there. -/
theorem heldFds_sendClientToGameThread {roomId clientFd : Int} (hstored : idle.StoredUnderOwnFd)
    (h : idle.sendClientToGameThread roomId clientFd = .ok idle') :
    idle'.heldFds = idle.heldFds := by
  obtain ⟨client, room, hclient, hfd, hroom, hidle'⟩ := sendClientToGameThread_eq_ok hstored h
  have hclients : idle'.clientFds + {clientFd} = idle.clientFds + 0 := by
    have herase :=
      idle.clientsMap.tokens_erase
        (fun client : ProtocolClient => ({client.clientFd} : Multiset Int)) clientFd
    rw [hclient, Option.elim, hfd] at herase
    rw [hidle', add_zero]
    exact herase
  have hrooms : idle'.gameRooms.tokens (·.heldFds) + 0 =
      idle.gameRooms.tokens (·.heldFds) + {clientFd} := by
    have hgameRooms : idle'.gameRooms =
        idle.gameRooms.modify roomId (GameRoom.pushInput client) := by rw [hidle']; rfl
    rw [hgameRooms]
    exact UnorderedMap.tokens_modify_add hroom (by rw [GameRoom.heldFds_pushInput, hfd, add_zero])
  have hadd := heldFds_add (by rw [hidle']; rfl) hclients hrooms
  rw [add_zero, zero_add] at hadd
  exact add_right_cancel hadd

/-- The clients who return with the front of an output are on their way. -/
theorem heldFds_popOutput {roomId : Int} {room : GameRoom} {change : GameStateChange}
    {data : List GameStateChange} (hroom : idle.gameRooms.get? roomId = some room)
    (hdata : room.gameOutput.data = change :: data) :
    (idle.modifyRoom roomId (GameRoom.withOutput { room.gameOutput with data := data })).heldFds +
        change.clientFds = idle.heldFds := by
  have houtput : (room.withOutput { room.gameOutput with data := data }).heldFds +
        change.clientFds = room.heldFds + 0 := by
    rw [GameRoom.heldFds, GameRoom.heldFds, outputFds, outputFds, hdata, ← Multiset.cons_coe,
      Multiset.cons_bind, add_zero]
    ac_rfl
  have hadd : (idle.modifyRoom roomId _).heldFds + (0 + change.clientFds) =
      idle.heldFds + (0 + 0) :=
    heldFds_add rfl rfl (UnorderedMap.tokens_modify_add hroom houtput)
  rwa [zero_add, zero_add, add_zero] at hadd

theorem heldFds_setGameAsPaused (idle : IdleUsersRoom) (roomId : Int) :
    (idle.setGameAsPaused roomId).heldFds = idle.heldFds :=
  heldFds_of_rooms rfl rfl (UnorderedMap.tokens_modify_of_eq _ _ _ fun _ _ => rfl)

theorem heldFds_setGameAsIdle (idle : IdleUsersRoom) (roomId : Int) :
    (idle.setGameAsIdle roomId).heldFds = idle.heldFds :=
  heldFds_of_rooms rfl rfl (UnorderedMap.tokens_modify_of_eq _ _ _ fun _ _ => rfl)

/-- The clients who came back did not touch the rooms. -/
theorem gameRooms_setGameAsIdle {fds : Multiset Int} {roomId : Int} {f : GameRoom → GameRoom}
    {back : IdleUsersRoom} (h : Admits fds (idle.modifyRoom roomId f) back) :
    (back.setGameAsIdle roomId).gameRooms = idle.gameRooms.modify roomId
      ((fun room => { room with gameState := .IDLE }.removeAllUsers) ∘ f) := by
  rw [← UnorderedMap.modify_modify, setGameAsIdle, modifyRoom, h.gameRooms, modifyRoom]

/-- Clients come back when a game has ended, and pauses are noted. -/
theorem applyStateChange_cases {roomId : Int} {change : GameStateChange}
    (h : idle.applyStateChange roomId change = .ok idle') :
    (change.newState = .IDLE ∧ ∃ first back, idle.addClientBack change.client1 = .ok first ∧
      first.addClientBack change.client2 = .ok back ∧ idle' = back.setGameAsIdle roomId) ∨
      (change.newState = .RUNNING ∧ idle' = idle) ∨
      (change.newState = .PAUSED ∧ idle' = idle.setGameAsPaused roomId) := by
  unfold applyStateChange at h
  split at h
  · rename_i hstate
    obtain ⟨first, hfirst, hrest⟩ := bind_eq_ok.mp h
    obtain ⟨back, hback, hdone⟩ := bind_eq_ok.mp hrest
    cases hdone
    exact .inl ⟨hstate, first, back, hfirst, hback, rfl⟩
  · rename_i hstate
    cases h
    exact .inr (.inl ⟨hstate, rfl⟩)
  · rename_i hstate
    cases h
    exact .inr (.inr ⟨hstate, rfl⟩)

theorem applyStateChange_eq_ok {roomId : Int} {change : GameStateChange}
    (h : idle.applyStateChange roomId change = .ok idle') :
    (change.newState = .IDLE ∧ ∃ back,
      Admits change.clientFds idle back ∧ idle' = back.setGameAsIdle roomId) ∨
      (change.newState = .RUNNING ∧ idle' = idle) ∨
      (change.newState = .PAUSED ∧ idle' = idle.setGameAsPaused roomId) := by
  obtain ⟨hstate, first, back, hfirst, hback, hidle⟩ | hbusy := applyStateChange_cases h
  · have hadmits := (admits_addClientBack hfirst).trans (admits_addClientBack hback)
    exact .inl ⟨hstate, back, hadmits, hidle⟩
  · exact .inr hbusy

/-- The queues of the rooms are left alone. -/
theorem gameRooms_applyStateChange {roomId : Int} {change : GameStateChange}
    (h : idle.applyStateChange roomId change = .ok idle') :
    ∃ f : GameRoom → GameRoom, idle'.gameRooms = idle.gameRooms.modify roomId f ∧
      ∀ room, (f room).gameInput = room.gameInput ∧ (f room).gameOutput = room.gameOutput := by
  rcases applyStateChange_eq_ok h with ⟨_, back, hadmits, rfl⟩ | ⟨_, rfl⟩ | ⟨_, rfl⟩
  · refine ⟨fun room => { room with gameState := .IDLE }.removeAllUsers, ?_, fun _ => ⟨rfl, rfl⟩⟩
    rw [← hadmits.gameRooms]
    rfl
  · refine ⟨id, ?_, fun _ => ⟨rfl, rfl⟩⟩
    ext1 id
    rw [UnorderedMap.get?_modify]
    split
    · rename_i heq
      rw [heq, Option.map_id_apply]
    · rfl
  · exact ⟨_, rfl, fun _ => ⟨rfl, rfl⟩⟩

end UpsServer.IdleUsersRoom
