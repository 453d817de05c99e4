import UpsServer.GameServer.Threads

namespace UpsServer

/-- What the books of the idle room say about a game. -/
def GameRoom.books (room : GameRoom) : GameState × Str × Str :=
  (room.gameState, room.usernameA, room.usernameB)

def GameRoom.evfds (room : GameRoom) : Int × Int := (room.gameInput.evfd, room.gameOutput.evfd)

namespace GameRoom

variable {room : GameRoom}

private theorem getUserCount_eq_zero : room.getUserCount = 0 ↔ room.usernameA = [] ∧ room.usernameB = [] := by
  unfold getUserCount
  cases room.usernameA <;> cases room.usernameB <;> simp

private theorem getUserCount_eq_two : room.getUserCount = 2 ↔ room.usernameA ≠ [] ∧ room.usernameB ≠ [] := by
  unfold getUserCount
  cases room.usernameA <;> cases room.usernameB <;> simp

private theorem addUser_of_empty (hA : room.usernameA = []) (hB : room.usernameB = []) (username : Str) :
    room.addUser username = .ok { room with usernameA := username } := by
  simp [addUser, getUserCount, hA, hB]

/-- The second user of a room is let in, too. -/
theorem addUser_of_free (hB : room.usernameB = []) (username : Str) :
    ∃ room', room.addUser username = .ok room' ∧
      (room.usernameA ≠ [] → room' = { room with usernameB := username }) := by
  unfold addUser getUserCount
  rw [hB]
  cases hA : room.usernameA with
  | nil => exact ⟨_, rfl, fun hne => (hne rfl).elim⟩
  | cons c usernameA => exact ⟨_, rfl, fun _ => rfl⟩

end GameRoom

namespace IdleUsersRoom

/-- Every watched descriptor is watched under its own number, and apart from the
queues the clients of the idle room are watched and nobody else. -/
structure Watched (idle : IdleUsersRoom) : Prop where
  own : ∀ fd md, idle.epoll.monitoredFds.get? fd = some md → md.monitoredFd = fd
  clients : idle.epoll.monitoredFds.keys.filter (idle.isEvfd · = false) = idle.clientsMap.keys

/-- The clients who wait are clients of the idle room with a name, and each waits
for an idle room of his own. The clients `leaving` are on their way to a game that
has started. -/
structure WaitingOk (idle : IdleUsersRoom) (leaving : List Int) : Prop where
  named : ∀ clientFd roomId, idle.waitingToJoinGame.get? clientFd = some roomId →
    ∃ client, idle.clientsMap.get? clientFd = some client ∧ client.hasName = true
  idleRoom : ∀ clientFd roomId, idle.waitingToJoinGame.get? clientFd = some roomId →
    clientFd ∉ leaving →
    ∃ room, idle.gameRooms.get? roomId = some room ∧ room.gameState = .IDLE
  alone : ∀ clientFd clientFd' roomId, idle.waitingToJoinGame.get? clientFd = some roomId →
    idle.waitingToJoinGame.get? clientFd' = some roomId → clientFd = clientFd'

/-- Idle rooms record no users and all others two, and the paused ones are known. -/
structure RoomsOk (idle : IdleUsersRoom) : Prop where
  users : ∀ roomId room, idle.gameRooms.get? roomId = some room →
    room.getUserCount = if room.gameState = .IDLE then 0 else 2
  paused : ∀ roomId, roomId ∈ idle.pausedGameRooms ↔
    ∃ room, idle.gameRooms.get? roomId = some room ∧ room.gameState = .PAUSED

/-- The tables of the idle room agree with each other. -/
structure TablesAgree (idle : IdleUsersRoom) (leaving : List Int) : Prop where
  stored : idle.StoredUnderOwnFd
  watched : idle.Watched
  waiting : idle.WaitingOk leaving
  rooms : idle.RoomsOk

variable {idle idle' : IdleUsersRoom} {leaving : List Int} {clientFd roomId : Int}

theorem Watched.monitors (h : idle.Watched) :
    idle.epoll.Monitors idle.epoll.monitoredFds.keys :=
  ⟨rfl, h.own⟩

theorem watched_of_monitors {fds : Finset Int} (h : idle'.epoll.Monitors fds)
    (hevfd : idle'.isEvfd = idle.isEvfd)
    (hclients : fds.filter (idle.isEvfd · = false) = idle'.clientsMap.keys) : idle'.Watched := by
  refine ⟨h.own, ?_⟩
  rw [h.keys, hevfd]
  exact hclients

/-- Whoever is waiting keeps his name. -/
theorem WaitingOk.modifyClient (h : idle.WaitingOk leaving) {f : ProtocolClient → ProtocolClient}
    (hf : ∀ client, idle.clientsMap.get? clientFd = some client → client.hasName = true →
      (f client).hasName = true) : (idle.modifyClient clientFd f).WaitingOk leaving := by
  refine ⟨fun fd roomId hwaiting => ?_, h.idleRoom, h.alone⟩
  obtain ⟨client, hclient, hname⟩ := h.named fd roomId hwaiting
  rw [IdleUsersRoom.modifyClient, UnorderedMap.get?_modify]
  split
  · rename_i heq
    subst heq
    exact ⟨f client, by rw [hclient, Option.map_some], hf client hclient hname⟩
  · exact ⟨client, hclient, hname⟩

theorem TablesAgree.modifyClient (h : idle.TablesAgree leaving)
    {f : ProtocolClient → ProtocolClient}
    (hfd : ∀ client, idle.clientsMap.get? clientFd = some client →
      (f client).clientFd = client.clientFd)
    (hname : ∀ client, idle.clientsMap.get? clientFd = some client → client.hasName = true →
      (f client).hasName = true) : (idle.modifyClient clientFd f).TablesAgree leaving where
  stored := (admits_modifyClient idle clientFd hfd).stored h.stored
  watched := by
    refine watched_of_monitors h.watched.monitors rfl ?_
    rw [IdleUsersRoom.modifyClient, UnorderedMap.keys_modify]
    exact h.watched.clients
  waiting := h.waiting.modifyClient hname
  rooms := ⟨h.rooms.users, h.rooms.paused⟩

theorem WaitingOk.mono {leaving' : List Int} (h : idle.WaitingOk leaving)
    (hle : leaving ⊆ leaving') : idle.WaitingOk leaving' :=
  ⟨h.named, fun fd roomId hfd hstays => h.idleRoom fd roomId hfd fun hmem => hstays (hle hmem),
    h.alone⟩

/-- A client who is no longer there waits no more. -/
theorem WaitingOk.erase (h : idle.WaitingOk (clientFd :: leaving))
    (hclients : idle'.clientsMap = idle.clientsMap.erase clientFd)
    (hwaiting : idle'.waitingToJoinGame = idle.waitingToJoinGame.erase clientFd)
    (hrooms : ∀ id room, idle.gameRooms.get? id = some room → room.gameState = .IDLE →
      ∃ room', idle'.gameRooms.get? id = some room' ∧ room'.gameState = .IDLE) :
    idle'.WaitingOk leaving := by
  have hget : ∀ fd roomId, idle'.waitingToJoinGame.get? fd = some roomId →
      fd ≠ clientFd ∧ idle.waitingToJoinGame.get? fd = some roomId := by
    intro fd roomId hfd
    rw [hwaiting, UnorderedMap.get?_erase] at hfd
    exact Option.ite_none_left_eq_some.mp hfd
  refine ⟨fun fd roomId hfd => ?_, fun fd roomId hfd hstays => ?_, fun fd fd' roomId hfd hfd' => ?_⟩
  · obtain ⟨hne, hfd⟩ := hget fd roomId hfd
    obtain ⟨client, hclient, hname⟩ := h.named fd roomId hfd
    exact ⟨client, by rw [hclients, UnorderedMap.get?_erase_of_ne _ hne, hclient], hname⟩
  · obtain ⟨hne, hfd⟩ := hget fd roomId hfd
    obtain ⟨room, hroom, hidle⟩ := h.idleRoom fd roomId hfd (List.not_mem_cons_of_ne_of_not_mem hne hstays)
    exact hrooms roomId room hroom hidle
  · exact h.alone fd fd' roomId (hget fd roomId hfd).2 (hget fd' roomId hfd').2

private theorem filter_erase_eq (h : idle.Watched) (clientFd : Int) :
    (idle.epoll.monitoredFds.keys.erase clientFd).filter (idle.isEvfd · = false) =
      idle.clientsMap.keys.erase clientFd := by
  rw [Finset.filter_erase, h.clients]

theorem TablesAgree.onClientDisconnect (h : idle.TablesAgree leaving) (clientFd : Int) :
    (idle.onClientDisconnect clientFd).TablesAgree leaving := by
  have hmonitors := h.watched.monitors.removeDescriptor clientFd
  have hfilter := filter_erase_eq h.watched clientFd
  unfold IdleUsersRoom.onClientDisconnect
  split
  · rename_i client _
    refine ⟨storedUnderOwnFd_erase h.stored clientFd rfl,
      watched_of_monitors (hmonitors.kernelClose client.clientFd) rfl ?_,
      (h.waiting.mono (List.subset_cons_self _ _)).erase rfl rfl fun id room hroom hidle =>
        ⟨room, hroom, hidle⟩,
      ⟨h.rooms.users, h.rooms.paused⟩⟩
    rw [UnorderedMap.keys_erase]
    exact hfilter
  · rename_i hnone
    rw [Finset.erase_eq_of_notMem (UnorderedMap.notMem_keys.mpr hnone)] at hfilter
    exact ⟨h.stored, watched_of_monitors hmonitors rfl hfilter,
      ⟨h.waiting.named, h.waiting.idleRoom, h.waiting.alone⟩, ⟨h.rooms.users, h.rooms.paused⟩⟩

section Rooms

variable {f : GameRoom → GameRoom}

theorem map_get?_modify {α : Type} (g : GameRoom → α) (rooms : UnorderedMap Int GameRoom)
    (hf : ∀ room, rooms.get? roomId = some room → g (f room) = g room) (id : Int) :
    ((rooms.modify roomId f).get? id).map g = (rooms.get? id).map g := by
  rw [UnorderedMap.get?_modify]
  split
  · rename_i heq
    subst heq
    cases hroom : rooms.get? id with
    | none => rfl
    | some room => exact congrArg some (hf room hroom)
  · rfl

theorem isEvfd_eq_true {fd : Int} : idle.isEvfd fd = true ↔ idle.newClientsQueue.evfd = fd ∨
    ∃ id evfds, (idle.gameRooms.get? id).map GameRoom.evfds = some evfds ∧
      (evfds.1 = fd ∨ evfds.2 = fd) := by
  simp only [isEvfd, Bool.or_eq_true, beq_iff_eq, UnorderedMap.any_eq_true, Option.map_eq_some_iff]
  refine or_congr_right ⟨?_, ?_⟩
  · rintro ⟨id, room, hroom, hfd⟩
    exact ⟨id, room.evfds, ⟨room, hroom, rfl⟩, hfd⟩
  · rintro ⟨id, _, ⟨room, hroom, rfl⟩, hfd⟩
    exact ⟨id, room, hroom, hfd⟩

private theorem isEvfd_congr (hqueue : idle'.newClientsQueue.evfd = idle.newClientsQueue.evfd)
    (hevfds : ∀ id, (idle'.gameRooms.get? id).map GameRoom.evfds =
      (idle.gameRooms.get? id).map GameRoom.evfds) : idle'.isEvfd = idle.isEvfd := by
  funext fd
  rw [Bool.eq_iff_iff, isEvfd_eq_true, isEvfd_eq_true, hqueue]
  simp only [hevfds]

theorem Admits.isEvfd {fds : Multiset Int} (h : Admits fds idle idle') :
    idle'.isEvfd = idle.isEvfd :=
  isEvfd_congr (by rw [h.newClientsQueue]) fun id => by rw [h.gameRooms]

theorem isEvfd_of_modify (idle : IdleUsersRoom)
    (hqueue : idle'.newClientsQueue.evfd = idle.newClientsQueue.evfd)
    (hrooms : idle'.gameRooms = idle.gameRooms.modify roomId f)
    (hf : ∀ room, idle.gameRooms.get? roomId = some room → (f room).evfds = room.evfds) :
    idle'.isEvfd = idle.isEvfd := by
  refine isEvfd_congr hqueue fun id => ?_
  rw [hrooms]
  exact map_get?_modify GameRoom.evfds idle.gameRooms hf id

/-- Popping the output of a room changes no descriptor. -/
theorem isEvfd_withOutput {room : GameRoom} (hroom : idle.gameRooms.get? roomId = some room)
    (data : List GameStateChange) :
    (idle.modifyRoom roomId (GameRoom.withOutput { room.gameOutput with data := data })).isEvfd =
      idle.isEvfd := by
  refine isEvfd_of_modify idle rfl rfl fun room' hroom' => ?_
  rw [hroom] at hroom'
  cases hroom'
  rfl

theorem isEvfd_applyStateChange {change : GameStateChange}
    (h : idle.applyStateChange roomId change = .ok idle') : idle'.isEvfd = idle.isEvfd := by
  obtain ⟨_, back, hadmits, rfl⟩ | ⟨_, rfl⟩ | ⟨_, rfl⟩ := applyStateChange_eq_ok h
  · have hback : (back.setGameAsIdle roomId).isEvfd = back.isEvfd :=
      isEvfd_of_modify back rfl rfl fun _ _ => rfl
    exact hback.trans hadmits.isEvfd
  · rfl
  · exact isEvfd_of_modify idle rfl rfl fun _ _ => rfl

theorem isEvfd_output {room : GameRoom} (hroom : idle.gameRooms.get? roomId = some room) :
    idle.isEvfd room.gameOutput.evfd = true :=
  isEvfd_eq_true.mpr (.inr ⟨roomId, room.evfds, by rw [hroom, Option.map_some], .inr rfl⟩)

private theorem exists_room_of_books {rooms rooms' : UnorderedMap Int GameRoom}
    (hrooms : ∀ id, (rooms'.get? id).map GameRoom.books = (rooms.get? id).map GameRoom.books)
    {room : GameRoom} (hroom : rooms.get? roomId = some room) :
    ∃ room', rooms'.get? roomId = some room' ∧ room'.books = room.books := by
  have heq := hrooms roomId
  rw [hroom, Option.map_some] at heq
  exact Option.map_eq_some_iff.mp heq

private theorem getUserCount_of_books {room room' : GameRoom} (h : room'.books = room.books) :
    room'.getUserCount = room.getUserCount := by
  simp only [GameRoom.books, Prod.mk.injEq] at h
  rw [GameRoom.getUserCount, GameRoom.getUserCount, h.2.1, h.2.2]

private theorem gameState_of_books {room room' : GameRoom} (h : room'.books = room.books) :
    room'.gameState = room.gameState :=
  congrArg Prod.fst h

theorem RoomsOk.congr (h : idle.RoomsOk) (hpaused : idle'.pausedGameRooms = idle.pausedGameRooms)
    (hrooms : ∀ id, (idle'.gameRooms.get? id).map GameRoom.books =
      (idle.gameRooms.get? id).map GameRoom.books) : idle'.RoomsOk := by
  refine ⟨fun roomId room hroom => ?_, fun roomId => ?_⟩
  · obtain ⟨room', hroom', hbooks⟩ := exists_room_of_books (fun id => (hrooms id).symm) hroom
    rw [← getUserCount_of_books hbooks, ← gameState_of_books hbooks]
    exact h.users roomId room' hroom'
  · rw [hpaused, h.paused]
    constructor
    · rintro ⟨room, hroom, hstate⟩
      obtain ⟨room', hroom', hbooks⟩ := exists_room_of_books hrooms hroom
      exact ⟨room', hroom', (gameState_of_books hbooks).trans hstate⟩
    · rintro ⟨room, hroom, hstate⟩
      obtain ⟨room', hroom', hbooks⟩ := exists_room_of_books (fun id => (hrooms id).symm) hroom
      exact ⟨room', hroom', (gameState_of_books hbooks).trans hstate⟩

/-- One room has changed. -/
theorem roomsOk_of_off (h : idle.RoomsOk)
    (hoff : ∀ id, id ≠ roomId → idle'.gameRooms.get? id = idle.gameRooms.get? id)
    (hpaused : ∀ id, id ≠ roomId → (id ∈ idle'.pausedGameRooms ↔ id ∈ idle.pausedGameRooms))
    {room : GameRoom} (hroom : idle'.gameRooms.get? roomId = some room)
    (husers : room.getUserCount = if room.gameState = .IDLE then 0 else 2)
    (hin : roomId ∈ idle'.pausedGameRooms ↔ room.gameState = .PAUSED) : idle'.RoomsOk := by
  refine ⟨fun id room' hroom' => ?_, fun id => ?_⟩
  · by_cases hid : id = roomId
    · subst hid
      rw [hroom] at hroom'
      cases hroom'
      exact husers
    · exact h.users id room' (hoff id hid ▸ hroom')
  · by_cases hid : id = roomId
    · subst hid
      rw [hin, hroom]
      constructor
      · intro hstate
        exact ⟨room, rfl, hstate⟩
      · rintro ⟨_, hsome, hstate⟩
        cases hsome
        exact hstate
    · rw [hpaused id hid, hoff id hid]
      exact h.paused id

end Rooms

/-- What is changed is in none of the tables. -/
theorem TablesAgree.congr (h : idle.TablesAgree leaving)
    (hclients : idle'.clientsMap = idle.clientsMap)
    (hmonitored : idle'.epoll.monitoredFds = idle.epoll.monitoredFds)
    (hwaiting : idle'.waitingToJoinGame = idle.waitingToJoinGame)
    (hpaused : idle'.pausedGameRooms = idle.pausedGameRooms)
    (hevfd : idle'.isEvfd = idle.isEvfd)
    (hrooms : ∀ id, (idle'.gameRooms.get? id).map GameRoom.books =
      (idle.gameRooms.get? id).map GameRoom.books) : idle'.TablesAgree leaving where
  stored := by
    rw [StoredUnderOwnFd, hclients]
    exact h.stored
  watched := by
    refine ⟨?_, ?_⟩
    · rw [hmonitored]
      exact h.watched.own
    · simp only [hmonitored, hclients, hevfd]
      exact h.watched.clients
  waiting := by
    refine ⟨?_, fun fd roomId hfd hstays => ?_, ?_⟩
    · rw [hclients, hwaiting]
      exact h.waiting.named
    · rw [hwaiting] at hfd
      obtain ⟨room, hroom, hidle⟩ := h.waiting.idleRoom fd roomId hfd hstays
      obtain ⟨room', hroom', hbooks⟩ := exists_room_of_books hrooms hroom
      exact ⟨room', hroom', (gameState_of_books hbooks).trans hidle⟩
    · rw [hwaiting]
      exact h.waiting.alone
  rooms := h.rooms.congr hpaused hrooms

theorem waitingClient_eq_some {gameId : Int} (h : idle.waitingClient gameId = some clientFd) :
    idle.waitingToJoinGame.get? clientFd = some gameId := by
  have hfound := List.find?_some h
  exact beq_iff_eq.mp hfound

theorem waitingClient_eq_none {gameId : Int} (h : idle.waitingClient gameId = none)
    (clientFd : Int) : idle.waitingToJoinGame.get? clientFd ≠ some gameId := by
  intro hwaiting
  have hmem : clientFd ∈ idle.waitingToJoinGame.keys.sort (· ≤ ·) :=
    (Finset.mem_sort _).mpr (UnorderedMap.mem_keys_of_get? hwaiting)
  exact List.find?_eq_none.mp h clientFd hmem (beq_iff_eq.mpr hwaiting)

/-- A client with a name begins to wait for an idle room nobody waits for. -/
theorem TablesAgree.waits (h : idle.TablesAgree leaving) {gameId : Int} {client : ProtocolClient}
    (hclient : idle.clientsMap.get? clientFd = some client) (hname : client.hasName = true)
    (hidle : ∃ room, idle.gameRooms.get? gameId = some room ∧ room.gameState = .IDLE)
    (hnobody : idle.waitingClient gameId = none) :
    ({ idle with waitingToJoinGame := idle.waitingToJoinGame.set clientFd gameId } :
      IdleUsersRoom).TablesAgree leaving := by
  have hget : ∀ fd roomId,
      (idle.waitingToJoinGame.set clientFd gameId).get? fd = some roomId →
      fd = clientFd ∧ roomId = gameId ∨ idle.waitingToJoinGame.get? fd = some roomId := by
    intro fd roomId hfd
    rw [UnorderedMap.get?_set] at hfd
    split at hfd
    · rename_i heq
      exact .inl ⟨heq, (Option.some.inj hfd).symm⟩
    · exact .inr hfd
  have halone := waitingClient_eq_none hnobody
  refine ⟨h.stored, ⟨h.watched.own, h.watched.clients⟩, ⟨?_, ?_, ?_⟩,
    ⟨h.rooms.users, h.rooms.paused⟩⟩
  · intro fd roomId hfd
    obtain ⟨rfl, _⟩ | hfd := hget fd roomId hfd
    · exact ⟨client, hclient, hname⟩
    · exact h.waiting.named fd roomId hfd
  · intro fd roomId hfd hstays
    obtain ⟨_, rfl⟩ | hfd := hget fd roomId hfd
    · exact hidle
    · exact h.waiting.idleRoom fd roomId hfd hstays
  · intro fd fd' roomId hfd hfd'
    have hfirst := hget fd roomId hfd
    have hsecond := hget fd' roomId hfd'
    obtain ⟨rfl, rfl⟩ | hfirst := hfirst
    · obtain ⟨rfl, _⟩ | hsecond := hsecond
      · rfl
      · exact (halone fd' hsecond).elim
    · obtain ⟨_, rfl⟩ | hsecond := hsecond
      · exact (halone fd hfirst).elim
      · exact h.waiting.alone fd fd' roomId hfirst hsecond

theorem storeClient_of_new {client : ProtocolClient} (hnew : idle.clientsMap.get? clientFd = none) :
    idle.storeClient clientFd client =
      { idle with clientsMap := idle.clientsMap.set clientFd client } := by
  rw [storeClient, hnew]

section Welcome

variable {client : ProtocolClient} (h : idle.TablesAgree leaving)
  (hnew : idle.clientsMap.get? client.clientFd = none)
  (hevfd : idle.isEvfd client.clientFd = false)
include h hnew hevfd

omit hevfd in
theorem TablesAgree.not_waiting (roomId : Int) :
    idle.waitingToJoinGame.get? client.clientFd ≠ some roomId := by
  intro hwaiting
  obtain ⟨_, hclient, _⟩ := h.waiting.named client.clientFd roomId hwaiting
  rw [hnew] at hclient
  cases hclient

theorem TablesAgree.welcome
    (hok : (idle.storeClient client.clientFd client).welcomeClient client.clientFd = .ok idle') :
    idle'.TablesAgree leaving := by
  have hadmits : Admits {client.clientFd} idle (idle.storeClient client.clientFd client) :=
    admits_storeClient idle rfl
  have hstored := hadmits.stored h.stored
  rw [storeClient_of_new hnew] at hok hstored
  obtain ⟨epoll, hwatch, hsend⟩ := bind_eq_ok.mp hok
  rw [withState_eq_ok] at hwatch
  obtain ⟨_, rfl⟩ := sendMsg_eq_ok.mp hsend
  have hmonitors := h.watched.monitors.watchClient hwatch
  have hwatched : ({ idle with
      epoll := epoll
      clientsMap := idle.clientsMap.set client.clientFd client } : IdleUsersRoom).Watched := by
    refine watched_of_monitors hmonitors rfl ?_
    change (insert client.clientFd idle.epoll.monitoredFds.keys).filter (idle.isEvfd · = false) = _
    rw [Finset.filter_insert, if_pos hevfd, h.watched.clients, UnorderedMap.keys_set]
  have hwelcome : ({ idle with
      epoll := epoll
      clientsMap := idle.clientsMap.set client.clientFd client } : IdleUsersRoom).TablesAgree
        leaving := by
    refine ⟨hstored, hwatched, ⟨fun fd roomId hfd => ?_, h.waiting.idleRoom, h.waiting.alone⟩,
      ⟨h.rooms.users, h.rooms.paused⟩⟩
    obtain ⟨client', hclient', hname⟩ := h.waiting.named fd roomId hfd
    refine ⟨client', ?_, hname⟩
    change (idle.clientsMap.set client.clientFd client).get? fd = some client'
    rw [UnorderedMap.get?_set_of_ne, hclient']
    rintro rfl
    exact h.not_waiting hnew roomId hfd
  exact hwelcome.modifyClient (fun _ _ => rfl) fun _ _ hname => hname

omit hevfd in
/-- A client who exceeds the player limit leaves no trace in the tables. -/
theorem TablesAgree.refuse :
    ((idle.storeClient client.clientFd client).onClientDisconnect client.clientFd).TablesAgree
      leaving := by
  have hclients : (idle.clientsMap.set client.clientFd client).erase client.clientFd =
      idle.clientsMap.erase client.clientFd := by
    ext1 fd
    rw [UnorderedMap.get?_erase, UnorderedMap.get?_erase]
    split
    · rfl
    · rename_i hne
      exact UnorderedMap.get?_set_of_ne _ _ hne
  have hmonitors := h.watched.monitors.removeDescriptor client.clientFd
  rw [storeClient_of_new hnew, IdleUsersRoom.onClientDisconnect]
  simp only [UnorderedMap.get?_set_self]
  refine ⟨storedUnderOwnFd_erase h.stored client.clientFd hclients,
    watched_of_monitors (hmonitors.kernelClose client.clientFd) rfl ?_,
    (h.waiting.mono (List.subset_cons_self _ _)).erase hclients rfl fun id room hroom hidle =>
      ⟨room, hroom, hidle⟩,
    ⟨h.rooms.users, h.rooms.paused⟩⟩
  rw [hclients, UnorderedMap.keys_erase]
  exact filter_erase_eq h.watched client.clientFd

end Welcome

theorem TablesAgree.addClientBack (h : idle.TablesAgree leaving) {client : Option ProtocolClient}
    (hnew : ∀ c, client = some c → idle.clientsMap.get? c.clientFd = none ∧
      idle.isEvfd c.clientFd = false)
    (hok : idle.addClientBack client = .ok idle') : idle'.TablesAgree leaving := by
  cases client with
  | none =>
    cases hok
    exact h
  | some c => exact h.welcome (hnew c rfl).1 (hnew c rfl).2 hok

theorem TablesAgree.addNewClient (h : idle.TablesAgree leaving)
    (hnew : idle.clientsMap.get? clientFd = none) (hevfd : idle.isEvfd clientFd = false)
    (hok : idle.addNewClient clientFd = .ok idle') : idle'.TablesAgree leaving := by
  have hnewClient : idle.clientsMap.get? ({ clientFd := clientFd } : ProtocolClient).clientFd =
      none := hnew
  unfold IdleUsersRoom.addNewClient at hok
  simp only at hok
  split at hok
  · cases hok
    exact h.refuse hnewClient
  · exact h.welcome hnewClient hevfd hok

/-- A room without users takes both users of a new game. -/
theorem setNewGameAsRunning_ok {room : GameRoom} (hroom : idle.gameRooms.get? roomId = some room)
    (hcount : room.getUserCount = 0) (username1 username2 : Str) :
    ∃ idle', idle.setNewGameAsRunning roomId username1 username2 = .ok idle' ∧
      (username1 ≠ [] → idle' =
        { idle with
          gameRooms := idle.gameRooms.modify roomId
            ({ · with gameState := .RUNNING, usernameA := username1, usernameB := username2 })
          pausedGameRooms := idle.pausedGameRooms.erase roomId }) := by
  obtain ⟨hA, hB⟩ := GameRoom.getUserCount_eq_zero.mp hcount
  have hrunning : (idle.setGameAsRunning roomId).gameRooms.get? roomId =
      some { room with gameState := .RUNNING } := UnorderedMap.get?_modify_of_get? hroom _
  have hfirst : { room with gameState := .RUNNING }.addUser username1 =
      .ok { room with gameState := .RUNNING, usernameA := username1 } :=
    @GameRoom.addUser_of_empty { room with gameState := .RUNNING } hA hB username1
  have hfree : ({ room with gameState := .RUNNING, usernameA := username1 } : GameRoom).usernameB =
      [] := hB
  obtain ⟨room2, hsecond, hroom2⟩ := GameRoom.addUser_of_free hfree username2
  refine ⟨(idle.setGameAsRunning roomId).modifyRoom roomId fun _ => room2, ?_, fun hne => ?_⟩
  · rw [setNewGameAsRunning, derefRoom_eq_ok.mpr hrunning, ok_bind, hfirst, withState_ok, ok_bind,
      hsecond, withState_ok, ok_bind]
    rfl
  · rw [hroom2 hne]
    simp only [setGameAsRunning, modifyRoom, UnorderedMap.modify_modify]
    congr 1
    ext1 id
    rw [UnorderedMap.get?_modify, UnorderedMap.get?_modify, hroom]
    rfl

/-- A game is entered with the names of its two clients. -/
theorem newGameThread_of_idle {client1 client2 : Int} {player1 player2 : ProtocolClient}
    {room : GameRoom} (hroom : idle.gameRooms.get? roomId = some room)
    (hcount : room.getUserCount = 0)
    (h1 : idle.clientsMap.get? client1 = some player1) (hname : player1.clientName ≠ [])
    (h2 : idle.clientsMap.get? client2 = some player2)
    (h : idle.newGameThread client1 client2 roomId = .ok idle') :
    ∃ epoll, (idle.epoll.addDescriptor room.gameOutput.evfd).addEventHandler room.gameOutput.evfd
        EPOLLIN (.onGameStateChange roomId) = .ok epoll ∧
      idle' = { idle with
        epoll := epoll
        gameRooms := idle.gameRooms.modify roomId
          ({ · with
            gameState := .RUNNING, usernameA := player1.clientName
            usernameB := player2.clientName })
        pausedGameRooms := idle.pausedGameRooms.erase roomId } := by
  rw [newGameThread, derefRoom_eq_ok.mpr hroom, ok_bind] at h
  obtain ⟨epoll, hepoll, hrest⟩ := bind_eq_ok.mp h
  rw [withState_eq_ok] at hepoll
  rw [derefClient_eq_ok.mpr h1, ok_bind, derefClient_eq_ok.mpr h2, ok_bind] at hrest
  have hroom' : ({ idle with epoll := epoll } : IdleUsersRoom).gameRooms.get? roomId = some room :=
    hroom
  obtain ⟨started, hok, hstarted⟩ :=
    setNewGameAsRunning_ok hroom' hcount player1.clientName player2.clientName
  rw [hok] at hrest
  cases hrest
  exact ⟨epoll, hepoll, hstarted hname⟩

theorem clientName_of_hasName {client : ProtocolClient} (h : client.hasName = true) :
    client.clientName ≠ [] := by
  intro hempty
  rw [ProtocolClient.hasName, hempty] at h
  cases h

/-- A game is started for two clients, one of whom has waited for it. -/
theorem TablesAgree.newGameThread (h : idle.TablesAgree []) {client2 : Int}
    {client : ProtocolClient} (hclient : idle.clientsMap.get? clientFd = some client)
    (hname : client.hasName = true)
    (hidle : ∃ room, idle.gameRooms.get? roomId = some room ∧ room.gameState = .IDLE)
    (hwaiting : idle.waitingClient roomId = some client2)
    (hnew : idle.newGameThread clientFd client2 roomId = .ok idle') :
    idle'.TablesAgree [clientFd, client2] := by
  obtain ⟨room, hroom, hstate⟩ := hidle
  have hwaits := waitingClient_eq_some hwaiting
  obtain ⟨player2, hplayer2, hname2⟩ := h.waiting.named client2 roomId hwaits
  have hcount := h.rooms.users roomId room hroom
  rw [if_pos hstate] at hcount
  obtain ⟨epoll, hepoll, rfl⟩ := newGameThread_of_idle hroom hcount hclient
    (clientName_of_hasName hname) hplayer2 hnew
  have hmonitors := (h.watched.monitors.addDescriptor _).addEventHandler hepoll
  refine ⟨h.stored, watched_of_monitors hmonitors (isEvfd_of_modify idle rfl rfl fun _ _ => rfl) ?_,
    ⟨h.waiting.named, ?_, h.waiting.alone⟩, ?_⟩
  · rw [Finset.filter_insert, if_neg (by simp [isEvfd_output hroom])]
    exact h.watched.clients
  · intro fd id hfd hstays
    obtain ⟨room', hroom', hidle'⟩ := h.waiting.idleRoom fd id hfd List.not_mem_nil
    refine ⟨room', ?_, hidle'⟩
    rw [← hroom']
    apply UnorderedMap.get?_modify_of_ne
    rintro rfl
    -- only one client waited for the room
    apply hstays
    rw [h.waiting.alone fd client2 id hfd hwaits]
    exact List.mem_cons_of_mem _ List.mem_cons_self
  · refine roomsOk_of_off h.rooms (fun id hid => UnorderedMap.get?_modify_of_ne _ _ hid) ?_
      (UnorderedMap.get?_modify_of_get? hroom _) ?_ ?_
    · intro id hid
      rw [Finset.mem_erase]
      exact and_iff_right hid
    · rw [if_neg GameState.noConfusion]
      exact GameRoom.getUserCount_eq_two.mpr
        ⟨clientName_of_hasName hname, clientName_of_hasName hname2⟩
    · refine iff_of_false (Finset.notMem_erase _ _) GameState.noConfusion

/-- A client of a game that starts is sent to its room. -/
theorem TablesAgree.sendClientToGameThread (h : idle.TablesAgree (clientFd :: leaving))
    (hsend : idle.sendClientToGameThread roomId clientFd = .ok idle') :
    idle'.TablesAgree leaving := by
  obtain ⟨client, room, hclient, hfd, hroom, rfl⟩ := sendClientToGameThread_eq_ok h.stored hsend
  have hbooks : ∀ id, ((idle.gameRooms.modify roomId (GameRoom.pushInput client)).get? id).map
      GameRoom.books = (idle.gameRooms.get? id).map GameRoom.books :=
    map_get?_modify GameRoom.books idle.gameRooms fun _ _ => rfl
  refine ⟨storedUnderOwnFd_erase h.stored clientFd rfl,
    watched_of_monitors (h.watched.monitors.removeDescriptor clientFd)
      (isEvfd_of_modify idle rfl rfl fun _ _ => rfl) ?_,
    h.waiting.erase rfl rfl fun id room hroom hidle => ?_, h.rooms.congr rfl hbooks⟩
  · rw [UnorderedMap.keys_erase]
    exact filter_erase_eq h.watched clientFd
  · obtain ⟨room', hroom', hbooks'⟩ := exists_room_of_books hbooks hroom
    exact ⟨room', hroom', (gameState_of_books hbooks').trans hidle⟩

/-- A room that is not idle is entered as paused. -/
theorem TablesAgree.setGameAsPaused (h : idle.TablesAgree leaving) {room : GameRoom}
    (hroom : idle.gameRooms.get? roomId = some room) (hbusy : room.gameState ≠ .IDLE) :
    (idle.setGameAsPaused roomId).TablesAgree leaving := by
  have hevfd : (idle.setGameAsPaused roomId).isEvfd = idle.isEvfd :=
    isEvfd_of_modify idle rfl rfl fun _ _ => rfl
  have hoff : ∀ id, id ≠ roomId →
      (idle.setGameAsPaused roomId).gameRooms.get? id = idle.gameRooms.get? id :=
    fun id hid => UnorderedMap.get?_modify_of_ne _ _ hid
  refine ⟨h.stored, watched_of_monitors h.watched.monitors hevfd h.watched.clients,
    ⟨h.waiting.named, ?_, h.waiting.alone⟩,
    ?_⟩
  · intro fd id hfd hstays
    obtain ⟨room', hroom', hidle⟩ := h.waiting.idleRoom fd id hfd hstays
    refine ⟨room', ?_, hidle⟩
    rw [hoff id, hroom']
    rintro rfl
    rw [hroom] at hroom'
    cases hroom'
    exact hbusy hidle
  · refine roomsOk_of_off h.rooms hoff ?_
      (by rw [IdleUsersRoom.setGameAsPaused, modifyRoom, UnorderedMap.get?_modify_self, hroom,
        Option.map_some]) ?_ ?_
    · intro id hid
      exact Finset.mem_insert.trans (or_iff_right hid)
    · rw [if_neg GameState.noConfusion]
      have hcount := h.rooms.users roomId room hroom
      rw [if_neg hbusy] at hcount
      exact hcount
    · exact iff_of_true (Finset.mem_insert_self _ _) rfl

/-- A room without a game is entered as idle, and its users are forgotten. -/
theorem TablesAgree.setGameAsIdle (h : idle.TablesAgree leaving) {room : GameRoom}
    (hroom : idle.gameRooms.get? roomId = some room) :
    (idle.setGameAsIdle roomId).TablesAgree leaving := by
  have hevfd : (idle.setGameAsIdle roomId).isEvfd = idle.isEvfd :=
    isEvfd_of_modify idle rfl rfl fun _ _ => rfl
  have hoff : ∀ id, id ≠ roomId →
      (idle.setGameAsIdle roomId).gameRooms.get? id = idle.gameRooms.get? id :=
    fun id hid => UnorderedMap.get?_modify_of_ne _ _ hid
  have hself : (idle.setGameAsIdle roomId).gameRooms.get? roomId =
      some { room with gameState := .IDLE }.removeAllUsers :=
    UnorderedMap.get?_modify_of_get? hroom _
  refine ⟨h.stored, watched_of_monitors h.watched.monitors hevfd h.watched.clients,
    ⟨h.waiting.named, ?_, h.waiting.alone⟩,
    roomsOk_of_off h.rooms hoff ?_ hself rfl ?_⟩
  · intro fd id hfd hstays
    by_cases hid : id = roomId
    · subst hid
      exact ⟨_, hself, rfl⟩
    · rw [hoff id hid]
      exact h.waiting.idleRoom fd id hfd hstays
  · intro id hid
    exact Finset.mem_erase.trans (and_iff_right hid)
  · exact iff_of_false (Finset.notMem_erase _ _) GameState.noConfusion

/-- A descriptor that is held elsewhere is not that of a client of the idle
room. -/
theorem get?_eq_none_of_nodup {fds : Multiset Int}
    (hstored : idle.StoredUnderOwnFd) (hnodup : (idle.clientFds + fds).Nodup)
    (hfd : clientFd ∈ fds) : idle.clientsMap.get? clientFd = none := by
  refine Option.eq_none_iff_forall_ne_some.mpr fun client hclient => ?_
  have hmem : clientFd ∈ idle.clientFds := UnorderedMap.mem_tokens.mpr
    ⟨clientFd, client, hclient, Multiset.mem_singleton.mpr (hstored clientFd client hclient).symm⟩
  exact Multiset.disjoint_left.mp (Multiset.nodup_add.mp hnodup).2.2 hmem hfd

theorem Admits.clientFds_le {fds : Multiset Int} (h : Admits fds idle idle') :
    idle'.clientFds ≤ idle.clientFds + fds := by
  obtain ⟨dropped, hdropped⟩ := h.closed
  have hsockets := h.sockets
  rw [← hdropped, ← Multiset.coe_add, add_right_comm, ← add_assoc, add_right_comm] at hsockets
  rw [← add_right_cancel hsockets]
  exact Multiset.le_add_right _ _

/-- The clients who return with a change are strangers to the idle room. -/
theorem TablesAgree.addClientsBack (h : idle.TablesAgree leaving) {change : GameStateChange}
    {first back : IdleUsersRoom} (hnodup : (idle.clientFds + change.clientFds).Nodup)
    (hevfd : ∀ fd ∈ change.clientFds, idle.isEvfd fd = false)
    (hfirst : idle.addClientBack change.client1 = .ok first)
    (hback : first.addClientBack change.client2 = .ok back) : back.TablesAgree leaving := by
  have hadmits := admits_addClientBack hfirst
  rw [GameStateChange.clientFds] at hnodup hevfd
  have htables : first.TablesAgree leaving := by
    refine h.addClientBack (fun c hc => ?_) hfirst
    have hmem : c.clientFd ∈ (change.client1.map (·.clientFd)).elim 0 ({·} : Int → Multiset Int) := by
      rw [hc]
      exact Multiset.mem_singleton_self _
    exact ⟨get?_eq_none_of_nodup h.stored hnodup (Multiset.mem_add.mpr (.inl hmem)),
      hevfd _ (Multiset.mem_add.mpr (.inl hmem))⟩
  refine htables.addClientBack (fun c hc => ?_) hback
  have hmem : c.clientFd ∈ (change.client2.map (·.clientFd)).elim 0 ({·} : Int → Multiset Int) := by
    rw [hc]
    exact Multiset.mem_singleton_self _
  refine ⟨get?_eq_none_of_nodup htables.stored (Multiset.nodup_of_le ?_ hnodup) hmem, ?_⟩
  · rw [← add_assoc]
    exact Multiset.add_le_add_right hadmits.clientFds_le
  · rw [hadmits.isEvfd]
    exact hevfd _ (Multiset.mem_add.mpr (.inr hmem))

theorem TablesAgree.applyStateChange (h : idle.TablesAgree leaving) {change : GameStateChange}
    {room : GameRoom} (hroom : idle.gameRooms.get? roomId = some room)
    (hbusy : change.newState = .PAUSED → room.gameState ≠ .IDLE)
    (hnodup : (idle.clientFds + change.clientFds).Nodup)
    (hevfd : ∀ fd ∈ change.clientFds, idle.isEvfd fd = false)
    (happly : idle.applyStateChange roomId change = .ok idle') : idle'.TablesAgree leaving := by
  obtain ⟨_, first, back, hfirst, hback, rfl⟩ | ⟨_, rfl⟩ | ⟨hpaused, rfl⟩ :=
    applyStateChange_cases happly
  · refine (h.addClientsBack hnodup hevfd hfirst hback).setGameAsIdle (?_ : _ = some room)
    rw [(admits_addClientBack hback).gameRooms, (admits_addClientBack hfirst).gameRooms, hroom]
  · exact h
  · exact h.setGameAsPaused hroom (hbusy hpaused)

theorem TablesAgree.receiveMessages (h : idle.TablesAgree leaving) {received : Option Str}
    {messages : List ProtocolData}
    (hreceive : idle.receiveMessages clientFd received = .ok (messages, idle')) :
    idle'.TablesAgree leaving := by
  obtain ⟨client, hclient, hrest⟩ := bind_eq_ok.mp hreceive
  rw [clientAt_eq_ok] at hclient
  split at hrest
  · cases hrest
    exact h.onClientDisconnect client.clientFd
  · rename_i hmessages
    cases hrest
    obtain ⟨parser, rfl⟩ := ProtocolClient.receiveMsg_eq_ok hmessages
    refine h.modifyClient (fun client' hclient' => ?_) fun client' hclient' hname => ?_
    · rw [hclient] at hclient'
      cases hclient'
      rfl
    · rw [hclient] at hclient'
      cases hclient'
      exact hname

/-- Whatever is answered, the tables agree with each other. -/
theorem TablesAgree.answer (h : idle.TablesAgree []) {msg : ProtocolData} {client : ProtocolClient}
    {newGame : Option NewGame} (hclient : idle.clientsMap.get? clientFd = some client)
    (hanswer : Answer idle msg clientFd client idle' newGame) :
    idle'.TablesAgree (newGame.elim [] fun new => [new.client1, new.client2]) := by
  cases hanswer with
  | removed => exact h.onClientDisconnect clientFd
  | denied => exact h.modifyClient (fun _ _ => rfl) fun _ _ hname => hname
  | listed => exact h.modifyClient (fun _ _ => rfl) fun _ _ hname => hname
  | @named username _ hunnamed _ =>
    have hnamed : (idle.modifyClient clientFd (·.setClientName username)).TablesAgree [] := by
      refine h.modifyClient (fun _ _ => rfl) fun client' hclient' hname => ?_
      rw [hclient] at hclient'
      cases hclient'
      rw [hunnamed] at hname
      cases hname
    exact hnamed.modifyClient (fun _ _ => rfl) fun _ _ hname => hname
  | waits _ hname hidle hnobody =>
    exact (h.waits hclient hname hidle hnobody).modifyClient (fun _ _ => rfl) fun _ _ hname => hname
  | starts _ hname _ hidle hwaiting hstart =>
    exact h.newGameThread hclient hname hidle hwaiting hstart

end IdleUsersRoom

end UpsServer
