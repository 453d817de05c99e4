import UpsServer.GameRoom.Identities
import UpsServer.GameServer.Representation
import UpsServer.Lib.Naming

namespace UpsServer

/-- Who is at a room: the players of its game, and who is in its queues. -/
def GameRoom.identities (game : Option GameThread) (room : GameRoom) : Set (Int × Str) :=
  game.elim ∅ (·.game.playerIdentities) ∪
    (inputIdentities room.gameInput ∪ outputIdentities room.gameOutput)

namespace IdleUsersRoom

/-- Who is in the idle room. -/
def identities (idle : IdleUsersRoom) : Set (Int × Str) :=
  {who | ∃ clientFd client, idle.clientsMap.get? clientFd = some client ∧ client.identity = who}

variable {idle idle' : IdleUsersRoom} {clientFd : Int} {client : ProtocolClient}

private theorem identities_modifyClient (idle : IdleUsersRoom) {f : ProtocolClient → ProtocolClient}
    (hf : ∀ client, idle.clientsMap.get? clientFd = some client →
      (f client).identity = client.identity) :
    (idle.modifyClient clientFd f).identities ⊆ idle.identities := by
  rintro who ⟨fd, client, hclient, rfl⟩
  rw [modifyClient, UnorderedMap.get?_modify] at hclient
  split at hclient
  · obtain ⟨client', hclient', rfl⟩ := Option.map_eq_some_iff.mp hclient
    exact ⟨clientFd, client', hclient', (hf client' hclient').symm⟩
  · exact ⟨fd, client, hclient, rfl⟩

private theorem identities_sendMsg (idle : IdleUsersRoom) (clientFd : Int) (msg : ProtocolData) :
    (idle.modifyClient clientFd (·.sendMsg msg)).identities ⊆ idle.identities :=
  identities_modifyClient idle fun _ _ => rfl

private theorem identities_erase (hclients : idle'.clientsMap = idle.clientsMap.erase clientFd) :
    idle'.identities ⊆ idle.identities := by
  rintro who ⟨fd, client, hclient, hwho⟩
  rw [hclients, UnorderedMap.get?_erase] at hclient
  exact ⟨fd, client, (Option.ite_none_left_eq_some.mp hclient).2, hwho⟩

theorem identities_onClientDisconnect (idle : IdleUsersRoom) (clientFd : Int) :
    (idle.onClientDisconnect clientFd).identities ⊆ idle.identities := by
  unfold onClientDisconnect
  split
  · exact identities_erase rfl
  · exact subset_rfl

private theorem identities_storeClient (idle : IdleUsersRoom) (clientFd : Int) (client : ProtocolClient) :
    (idle.storeClient clientFd client).identities ⊆ idle.identities ∪ {client.identity} := by
  have hclients :
      (idle.storeClient clientFd client).clientsMap = idle.clientsMap.set clientFd client := by
    unfold storeClient
    split <;> rfl
  rintro who ⟨fd, client', hclient', rfl⟩
  rw [hclients, UnorderedMap.get?_set] at hclient'
  split at hclient'
  · cases hclient'
    exact .inr rfl
  · exact .inl ⟨fd, client', hclient', rfl⟩

private theorem identities_welcomeClient (h : idle.welcomeClient clientFd = .ok idle') :
    idle'.identities ⊆ idle.identities := by
  obtain ⟨epoll, _, hsend⟩ := bind_eq_ok.mp h
  obtain ⟨_, rfl⟩ := sendMsg_eq_ok.mp hsend
  exact identities_sendMsg { idle with epoll := epoll } clientFd _

/-- A new client has no name. -/
theorem identities_addNewClient (h : idle.addNewClient clientFd = .ok idle') :
    idle'.identities ⊆ idle.identities ∪ {(clientFd, [])} := by
  have hstore := identities_storeClient idle clientFd { clientFd := clientFd }
  simp only [addNewClient] at h
  split at h
  · cases h
    exact (identities_onClientDisconnect _ clientFd).trans hstore
  · exact (identities_welcomeClient h).trans hstore

private theorem identities_addClientBack {client : Option ProtocolClient}
    (h : idle.addClientBack client = .ok idle') :
    idle'.identities ⊆ idle.identities ∪ {who | ∃ c, client = some c ∧ c.identity = who} := by
  cases client with
  | none =>
    cases h
    exact Set.subset_union_left
  | some c =>
    refine (identities_welcomeClient h).trans ((identities_storeClient idle c.clientFd c).trans ?_)
    rintro who (hwho | hwho)
    · exact .inl hwho
    · exact .inr ⟨c, rfl, hwho.symm⟩

/-- Those who return with the end of a game keep their names. -/
theorem identities_applyStateChange {roomId : Int} {change : GameStateChange}
    (h : idle.applyStateChange roomId change = .ok idle') :
    idle'.identities ⊆ idle.identities ∪ change.identities := by
  obtain ⟨_, first, back, hfirst, hback, rfl⟩ | ⟨_, rfl⟩ | ⟨_, rfl⟩ := applyStateChange_cases h
  · intro who hwho
    obtain hwho | ⟨c, hc, hwho⟩ := identities_addClientBack hback hwho
    · obtain hwho | ⟨c, hc, hwho⟩ := identities_addClientBack hfirst hwho
      · exact .inl hwho
      · exact .inr ⟨c, .inl hc, hwho⟩
    · exact .inr ⟨c, .inr hc, hwho⟩
  · exact Set.subset_union_left
  · exact Set.subset_union_left

theorem identities_receiveMessages {received : Option Str} {messages : List ProtocolData}
    (h : idle.receiveMessages clientFd received = .ok (messages, idle')) :
    idle'.identities ⊆ idle.identities := by
  obtain ⟨client, hclient, hrest⟩ := bind_eq_ok.mp h
  rw [clientAt_eq_ok] at hclient
  split at hrest
  · cases hrest
    exact identities_onClientDisconnect idle client.clientFd
  · rename_i hmessages
    cases hrest
    obtain ⟨parser, rfl⟩ := ProtocolClient.receiveMsg_eq_ok hmessages
    refine identities_modifyClient idle fun client' hclient' => ?_
    rw [hclient] at hclient'
    cases hclient'
    rfl

/-- A name that is free belongs to nobody in the idle room. -/
theorem ne_of_isUsernameTaken {username : Str}
    (hfree : idle.isUsernameTaken client username = false)
    (hclient : idle.clientsMap.get? clientFd = some client) (hunnamed : client.hasName = false)
    (hstored : idle.StoredUnderOwnFd) : ∀ who ∈ idle.identities, who.2 ≠ [] → who.2 ≠ username := by
  simp only [isUsernameTaken, Bool.or_eq_false_iff] at hfree
  have hnamesake := hfree.1.1
  rintro who ⟨fd, other, hother, rfl⟩ hname rfl
  have hotherName : other.hasName = true := by
    rw [ProtocolClient.hasName, Bool.not_eq_true', List.isEmpty_eq_false_iff]
    exact hname
  have hne : other.clientFd ≠ client.clientFd := by
    intro heq
    rw [hstored _ _ hother, hstored _ _ hclient] at heq
    subst heq
    rw [hother] at hclient
    cases hclient
    rw [hunnamed] at hotherName
    cases hotherName
  have htaken : idle.hasNamesake client other.identity.2 = true := by
    refine UnorderedMap.any_eq_true.mpr ⟨fd, other, hother, ?_⟩
    rw [hotherName, bne_iff_ne.mpr hne]
    exact beq_self_eq_true _
  rw [hnamesake] at htaken
  cases htaken

private theorem identities_setClientName (hclient : idle.clientsMap.get? clientFd = some client)
    (username : Str) : (idle.modifyClient clientFd (·.setClientName username)).identities ⊆
      idle.identities ∪ {(client.clientFd, username)} := by
  rintro who ⟨fd, client', hclient', rfl⟩
  rw [modifyClient, UnorderedMap.get?_modify] at hclient'
  split at hclient'
  · rw [hclient] at hclient'
    cases hclient'
    exact .inr rfl
  · exact .inl ⟨fd, client', hclient', rfl⟩

/-- An answer gives nobody a name, or one client a name that is free. -/
theorem identities_answer {msg : ProtocolData}
    (hclient : idle.clientsMap.get? clientFd = some client)
    (h : Answer idle msg clientFd client idle' none) : idle'.identities ⊆ idle.identities ∨
      ∃ username, client.hasName = false ∧ idle.isUsernameTaken client username = false ∧
        idle'.identities ⊆ idle.identities ∪ {(client.clientFd, username)} := by
  cases h with
  | removed => exact .inl (identities_onClientDisconnect idle clientFd)
  | denied | listed => exact .inl (identities_modifyClient idle fun _ _ => rfl)
  | @waits gameId =>
    have hwaits : ({ idle with waitingToJoinGame := idle.waitingToJoinGame.set clientFd gameId } :
      IdleUsersRoom).identities ⊆ idle.identities := subset_rfl
    exact .inl ((identities_sendMsg _ clientFd _).trans hwaits)
  | @named username _ hunnamed hfree =>
    refine .inr ⟨username, hunnamed, hfree, ?_⟩
    exact (identities_sendMsg _ clientFd _).trans (identities_setClientName hclient username)

end IdleUsersRoom

/-- Whoever is at a room is recorded there, and nobody is on the way to a game
that is not running. -/
structure RoomNames (game : Option GameThread) (room : GameRoom) : Prop where
  recorded : ∀ who ∈ room.identities game, room.hasUsername who.2 = true
  idleInput : room.gameState = .IDLE → room.gameInput.data = []

theorem Game.playerIdentities_start {gameInput : EventfdQueue ProtocolClient}
    {gameOutput : EventfdQueue GameStateChange} {g : Game}
    (h : Game.start gameInput gameOutput = .ok g) : g.playerIdentities = ∅ := by
  obtain ⟨epoll, rfl⟩ := Game.start_eq_ok h
  apply Set.eq_empty_of_forall_notMem
  rintro who ⟨ref, client, hclient, _⟩
  cases ref <;> cases hclient

namespace GameRoom

/-- The thread of a game holds whoever is at its room. -/
theorem identities_some (room : GameRoom) (stored : GameThread) :
    room.identities (some stored) = (stored.withQueues room).game.identities := rfl

theorem notMem_identities {game : Option GameThread} {room : GameRoom}
    (hplayers : ∀ t, game = some t → t.game.playerIdentities = ∅)
    (hinput : room.gameInput.data = []) (houtput : room.gameOutput.data = []) (who : Int × Str) :
    who ∉ room.identities game := by
  rintro (hwho | ⟨client, hclient, _⟩ | ⟨change, hchange, _⟩)
  · cases game with
    | none => exact hwho
    | some t =>
      have hplayer : who ∈ t.game.playerIdentities := hwho
      rw [hplayers t rfl] at hplayer
      exact hplayer
  · rw [hinput] at hclient
    cases hclient
  · rw [houtput] at hchange
    cases hchange

private theorem identities_mono {room room' : GameRoom} (game : Option GameThread)
    (hinput : room'.gameInput.data ⊆ room.gameInput.data)
    (houtput : room'.gameOutput.data ⊆ room.gameOutput.data) :
    room'.identities game ⊆ room.identities game := by
  rintro who (hwho | hwho | ⟨change, hchange, hwho⟩)
  · exact .inl hwho
  · exact .inr (.inl (inputIdentities_mono hinput hwho))
  · exact .inr (.inr ⟨change, houtput hchange, hwho⟩)

end GameRoom

theorem RoomNames.of_subset {game game' : Option GameThread} {room room' : GameRoom}
    (h : RoomNames game room) (hle : room'.identities game' ⊆ room.identities game)
    (husers : ∀ name, room'.hasUsername name = room.hasUsername name)
    (hidle : room'.gameState = .IDLE → room'.gameInput.data = []) : RoomNames game' room' :=
  ⟨fun who hwho => (husers who.2).trans (h.recorded who (hle hwho)), hidle⟩

/-- Where nobody is, nobody has to be recorded. -/
theorem roomNames_of_notMem {game : Option GameThread} {room : GameRoom}
    (h : ∀ who, who ∉ room.identities game) (hinput : room.gameInput.data = []) :
    RoomNames game room :=
  ⟨fun who hwho => (h who hwho).elim, fun _ => hinput⟩

namespace Server

open IdleUsersRoom

/-- Who is connected. -/
def identities (s : Server) : Set (Int × Str) :=
  s.idle.identities ∪
    {who | ∃ roomId room, s.idle.gameRooms.get? roomId = some room ∧
      who ∈ room.identities (s.games.get? roomId)}

/-- The clients of a game that starts are recorded before they are sent to it. -/
def LeavingRecorded (s : Server) : Prop :=
  ∀ roomId clients clientFd messages, s.pc = .sending roomId clients clientFd messages →
    ∃ room, s.idle.gameRooms.get? roomId = some room ∧ room.gameState ≠ .IDLE ∧
      ∀ fd ∈ clients, ∀ client, s.idle.clientsMap.get? fd = some client →
        room.hasUsername client.clientName = true

/-- No two who are connected have the same name, as the names of all who are not
in the idle room are recorded in a room. -/
structure NamesOk (s : Server) : Prop where
  rooms : ∀ roomId room, s.idle.gameRooms.get? roomId = some room →
    RoomNames (s.games.get? roomId) room
  leaving : s.LeavingRecorded
  unique : Naming.Unique [] s.identities

/-- The idle room does not enter a game as ended while a client is left in its
input. -/
def LeavesNobody (s : Server) : ServerAction → Prop
  | .applyStateChange => ∀ roomId room change data, s.pc = .changing roomId →
      s.idle.gameRooms.get? roomId = some room → room.gameOutput.data = change :: data →
      change.newState = .IDLE → room.gameInput.data = []
  | _ => True

variable {s s' : Server} {action : ServerAction}

theorem NamesOk.rooms_subset (h : s.NamesOk) (roomId : Int) (room : GameRoom)
    (hroom : s.idle.gameRooms.get? roomId = some room) :
    RoomNames (s.games.get? roomId) room ∧
      room.identities (s.games.get? roomId) ⊆ s.identities :=
  ⟨h.rooms roomId room hroom, fun _ hwho => .inr ⟨roomId, room, hroom, hwho⟩⟩

/-- Nobody comes to the server with a name, and nobody is given one. -/
theorem NamesOk.of_subset (h : s.NamesOk)
    (hidle : ∀ who ∈ s'.idle.identities, who.2 ≠ [] → who ∈ s.identities)
    (hrooms : ∀ roomId room, s'.idle.gameRooms.get? roomId = some room →
      RoomNames (s'.games.get? roomId) room ∧
        room.identities (s'.games.get? roomId) ⊆ s.identities)
    (hleaving : s'.LeavingRecorded) : s'.NamesOk := by
  refine ⟨fun roomId room hroom => (hrooms roomId room hroom).1, hleaving, h.unique.mono ?_⟩
  rintro who (hwho | ⟨roomId, room, hroom, hwho⟩) hname
  · exact hidle who hwho hname
  · exact (hrooms roomId room hroom).2 hwho

/-- One room and its game have changed. -/
theorem NamesOk.of_room (h : s.NamesOk) {roomId : Int} {f : GameRoom → GameRoom}
    (hrooms : s'.idle.gameRooms = s.idle.gameRooms.modify roomId f)
    (hgames : ∀ id, id ≠ roomId → s'.games.get? id = s.games.get? id)
    (hidle : s'.idle.identities ⊆ s.identities)
    (hroom : ∀ room, s.idle.gameRooms.get? roomId = some room →
      RoomNames (s'.games.get? roomId) (f room) ∧
        (f room).identities (s'.games.get? roomId) ⊆ s.identities)
    (hleaving : s'.LeavingRecorded) : s'.NamesOk := by
  refine h.of_subset (fun who hwho _ => hidle hwho) ?_ hleaving
  rw [hrooms]
  exact forall_rooms_modify
    (fun _ game room => RoomNames game room ∧ room.identities game ⊆ s.identities) h.rooms_subset
    hgames hroom

/-- Only clients of the idle room are touched. -/
theorem NamesOk.of_idle (h : s.NamesOk)
    (hidle : ∀ who ∈ s'.idle.identities, who.2 ≠ [] → who ∈ s.idle.identities)
    (hrooms : s'.idle.gameRooms = s.idle.gameRooms) (hgames : s'.games = s.games)
    (hleaving : s'.LeavingRecorded) : s'.NamesOk := by
  refine h.of_subset (fun who hwho hname => .inl (hidle who hwho hname)) ?_ hleaving
  rw [hrooms, hgames]
  exact h.rooms_subset

/-- A name that is free is one that nobody has. -/
theorem NamesOk.free (h : s.NamesOk) (hstored : s.idle.StoredUnderOwnFd) {clientFd : Int}
    {client : ProtocolClient} {username : Str}
    (hclient : s.idle.clientsMap.get? clientFd = some client) (hunnamed : client.hasName = false)
    (hfree : s.idle.isUsernameTaken client username = false) :
    ∀ who ∈ s.identities, who.2 ≠ [] → who.2 ≠ username := by
  rintro who (hwho | ⟨roomId, room, hroom, hwho⟩) hname
  · exact ne_of_isUsernameTaken hfree hclient hunnamed hstored who hwho hname
  · rintro rfl
    have hrecorded := (h.rooms roomId room hroom).recorded who hwho
    rw [isUsernameTaken_of_hasUsername client hroom hrecorded] at hfree
    cases hfree

theorem NamesOk.answer (h : s.NamesOk) (hstored : s.idle.StoredUnderOwnFd) {clientFd : Int}
    {msg : ProtocolData} {client : ProtocolClient} {idle : IdleUsersRoom} {pc : IdlePc}
    (hclient : s.idle.clientsMap.get? clientFd = some client)
    (hanswer : Answer s.idle msg clientFd client idle none)
    (hleaving : (s.withIdle pc idle).LeavingRecorded) : (s.withIdle pc idle).NamesOk := by
  have hgameRooms : (s.withIdle pc idle).idle.gameRooms = s.idle.gameRooms :=
    (admits_answer hanswer).gameRooms
  obtain hsame | ⟨username, hunnamed, hfree, hnamed⟩ := identities_answer hclient hanswer
  · exact h.of_idle (fun who hwho _ => hsame hwho) hgameRooms rfl hleaving
  · refine ⟨?_, hleaving, ?_⟩
    · rw [hgameRooms]
      exact h.rooms
    · refine h.unique.give client.clientFd (h.free hstored hclient hunnamed hfree) ?_
      rintro who (hwho | ⟨roomId, room, hroom, hwho⟩) _
      · obtain hwho | hwho := hnamed hwho
        · exact .inr (.inl hwho)
        · exact .inl hwho
      · rw [hgameRooms] at hroom
        exact .inr (.inr ⟨roomId, room, hroom, hwho⟩)

/-- A game starts in a room where nobody is, and which records both players. -/
theorem NamesOk.startGame (h : s.NamesOk) (hinvariant : s.Invariant)
    (htables : s.idle.TablesAgree []) {clientFd client2 roomId : Int} {client : ProtocolClient}
    {messages : List ProtocolData} {room : GameRoom} {idle : IdleUsersRoom} {g : Game}
    (hclient : s.idle.clientsMap.get? clientFd = some client) (hname : client.hasName = true)
    (hroom : s.idle.gameRooms.get? roomId = some room) (hidle : room.gameState = .IDLE)
    (hwaiting : s.idle.waitingClient roomId = some client2)
    (hnew : s.idle.newGameThread clientFd client2 roomId = .ok idle)
    (hstart : Game.start room.gameInput room.gameOutput = .ok g) :
    ({ s.withIdle (.sending roomId [clientFd, client2] clientFd messages) idle with
      games := s.games.set roomId { game := g } } : Server).NamesOk := by
  obtain ⟨player2, hplayer2, _⟩ := htables.waiting.named client2 roomId (waitingClient_eq_some hwaiting)
  have hcount := htables.rooms.users roomId room hroom
  rw [if_pos hidle] at hcount
  obtain ⟨epoll, _, rfl⟩ :=
    newGameThread_of_idle hroom hcount hclient (clientName_of_hasName hname) hplayer2 hnew
  have hinput := (h.rooms roomId room hroom).idleInput hidle
  have houtput := ((hinvariant.phase roomId room hroom).of_idle hidle).2
  refine h.of_room rfl (fun id hid => UnorderedMap.get?_set_of_ne _ _ hid)
    (fun who hwho => .inl hwho) (fun room' hroom' => ?_) ?_
  · cases hroom.symm.trans hroom'
    rw [UnorderedMap.get?_set_self]
    have hnobody := @GameRoom.notMem_identities (some { game := g })
      { room with
        gameState := .RUNNING, usernameA := client.clientName, usernameB := player2.clientName }
      (fun t ht => by cases ht; exact Game.playerIdentities_start hstart) hinput houtput
    exact ⟨roomNames_of_notMem hnobody hinput, fun who hwho => (hnobody who hwho).elim⟩
  · intro roomId' clients clientFd' messages' hpc
    cases hpc
    refine ⟨_, UnorderedMap.get?_modify_of_get? hroom _, GameState.noConfusion,
      fun fd hfd player hplayer => ?_⟩
    rw [GameRoom.hasUsername, Bool.or_eq_true, beq_iff_eq, beq_iff_eq]
    obtain rfl | hfd := List.mem_cons.mp hfd
    · cases hclient.symm.trans hplayer
      exact .inl rfl
    · obtain rfl := List.mem_singleton.mp hfd
      cases hplayer2.symm.trans hplayer
      exact .inr rfl

/-- A client who is sent to a game is recorded there. -/
theorem NamesOk.sendClient (h : s.NamesOk) (hstored : s.idle.StoredUnderOwnFd)
    {roomId clientFd fd : Int} {clients : List Int} {messages : List ProtocolData}
    {idle : IdleUsersRoom} (hpc : s.pc = .sending roomId (fd :: clients) clientFd messages)
    (hsend : s.idle.sendClientToGameThread roomId fd = .ok idle) :
    (s.withIdle (afterSend roomId clients clientFd messages) idle).NamesOk := by
  obtain ⟨room, hroom, hbusy, hrecorded⟩ := h.leaving roomId _ clientFd messages hpc
  obtain ⟨moved, room', hmoved, _, hroom', rfl⟩ := sendClientToGameThread_eq_ok hstored hsend
  rw [hroom] at hroom'
  cases hroom'
  refine h.of_room rfl (fun _ _ => rfl) (fun who hwho => .inl (identities_erase rfl hwho))
    (fun room' hroom' => ?_) ?_
  · cases hroom.symm.trans hroom'
    have hwas := h.rooms_subset roomId room hroom
    have hnow : ∀ who ∈ (room.pushInput moved).identities (s.games.get? roomId),
        who ∈ room.identities (s.games.get? roomId) ∨ who = moved.identity := by
      rintro who (hwho | hwho | hwho)
      · exact .inl (.inl hwho)
      · change who ∈ inputIdentities (room.gameInput.push moved) at hwho
        rw [inputIdentities_push] at hwho
        obtain hwho | hwho := hwho
        · exact .inl (.inr (.inl hwho))
        · exact .inr hwho
      · exact .inl (.inr (.inr hwho))
    refine ⟨⟨fun who hwho => ?_, fun hidle => (hbusy hidle).elim⟩, fun who hwho => ?_⟩
    · obtain hwho | rfl := hnow who hwho
      · exact hwas.1.recorded who hwho
      · exact hrecorded fd List.mem_cons_self moved hmoved
    · obtain hwho | rfl := hnow who hwho
      · exact hwas.2 hwho
      · exact .inl ⟨fd, moved, hmoved, rfl⟩
  · intro roomId' clients' clientFd' messages' hpc'
    have hsending : afterSend roomId clients clientFd messages =
        .sending roomId' clients' clientFd' messages' := hpc'
    unfold afterSend at hsending
    split at hsending
    · cases hsending
    · cases hsending
      refine ⟨room.pushInput moved, UnorderedMap.get?_modify_of_get? hroom _, hbusy,
        fun fd' hfd' client hclient => ?_⟩
      have hclient' : (s.idle.clientsMap.erase fd).get? fd' = some client := hclient
      rw [UnorderedMap.get?_erase] at hclient'
      exact hrecorded fd' (List.mem_cons_of_mem _ hfd') client
        (Option.ite_none_left_eq_some.mp hclient').2

/-- A change is popped from the output of a room. Those who return with it come
to the idle room with their names. -/
theorem NamesOk.applyStateChange (h : s.NamesOk) (hinvariant : s.Invariant) {roomId : Int}
    {room : GameRoom} {change : GameStateChange} {data : List GameStateChange}
    {idle : IdleUsersRoom} (hroom : s.idle.gameRooms.get? roomId = some room)
    (hdata : room.gameOutput.data = change :: data)
    (hleaves : change.newState = .IDLE → room.gameInput.data = [])
    (happly : (s.idle.modifyRoom roomId
      (GameRoom.withOutput { room.gameOutput with data := data })).applyStateChange roomId change =
        .ok idle) : (s.withIdle (.changing roomId) idle).NamesOk := by
  have hwas := h.rooms_subset roomId room hroom
  have hback : idle.identities ⊆ s.identities := by
    intro who hwho
    obtain hwho | hwho := identities_applyStateChange happly hwho
    · exact .inl hwho
    · refine .inr ⟨roomId, room, hroom, .inr (.inr ⟨change, ?_, hwho⟩)⟩
      rw [hdata]
      exact List.mem_cons_self
  have hleaving : (s.withIdle (.changing roomId) idle).LeavingRecorded := nofun
  rcases hinvariant.applied hroom hdata happly with
    ⟨_, rfl, _⟩ | ⟨hchange, hnone, hlast, back, hadmits, rfl⟩
  · refine h.of_room (UnorderedMap.modify_modify _ _ _ _) (fun _ _ => rfl) hback
      (fun room' hroom' => ?_) hleaving
    cases hroom.symm.trans hroom'
    have hle : ({ room with
        gameOutput := { room.gameOutput with data := data }, gameState := .PAUSED } :
        GameRoom).identities (s.games.get? roomId) ⊆ room.identities (s.games.get? roomId) :=
      GameRoom.identities_mono _ (List.Subset.refl _) (hdata ▸ List.subset_cons_self change data)
    exact ⟨hwas.1.of_subset hle (fun _ => rfl) GameState.noConfusion, hle.trans hwas.2⟩
  · refine h.of_room (gameRooms_setGameAsIdle hadmits) (fun _ _ => rfl) hback
      (fun room' hroom' => ?_) hleaving
    cases hroom.symm.trans hroom'
    have hinput := hleaves hchange
    have hnobody := @GameRoom.notMem_identities (s.games.get? roomId)
      ({ room with
        gameOutput := { room.gameOutput with data := data }, gameState := .IDLE } :
        GameRoom).removeAllUsers (fun t ht => by rw [hnone] at ht; cases ht) hinput hlast
    exact ⟨roomNames_of_notMem hnobody hinput, fun who hwho => (hnobody who hwho).elim⟩

/-- A game thread goes on. -/
theorem NamesOk.game (h : s.NamesOk) (hinvariant : s.Invariant) {roomId : Int}
    {action : GameAction} {room : GameRoom} {stored t' : GameThread} (hown : action.isOwn = true)
    (hroom : s.idle.gameRooms.get? roomId = some room) (hstored : s.games.get? roomId = some stored)
    (hgo : (stored.withQueues room).step action = some t') :
    (s.withThread roomId (stored.withQueues room) t').NamesOk := by
  have hwas := h.rooms_subset roomId room hroom
  have hbusy : room.gameState ≠ .IDLE := by
    intro hidle
    have hnone := ((hinvariant.phase roomId room hroom).of_idle hidle).1
    rw [hstored] at hnone
    cases hnone
  rw [hstored, GameRoom.identities_some] at hwas
  have hle := GameThread.identities_step hown hgo
  have hnow : (room.withQueuesOf t').identities
      ((s.withThread roomId (stored.withQueues room) t').games.get? roomId) ⊆
        (stored.withQueues room).game.identities := by
    rw [withThread]
    split
    · rw [UnorderedMap.get?_erase_self]
      rintro who (hwho | hwho)
      · exact hwho.elim
      · exact hle (.inr hwho)
    · rw [UnorderedMap.get?_set_self]
      exact hle
  refine h.of_room rfl (fun _ hid => games_of_ne rfl hid) (fun who hwho => .inl hwho)
    (fun room' hroom' => ?_) ?_
  · cases hroom.symm.trans hroom'
    exact ⟨hwas.1.of_subset hnow (fun _ => rfl) fun hidle => (hbusy hidle).elim, hnow.trans hwas.2⟩
  · intro roomId' clients clientFd messages hpc
    obtain ⟨room', hroom', hstate, hrecorded⟩ := h.leaving roomId' clients clientFd messages hpc
    by_cases hid : roomId' = roomId
    · subst hid
      rw [hroom] at hroom'
      cases hroom'
      exact ⟨_, UnorderedMap.get?_modify_of_get? hroom _, hstate, hrecorded⟩
    · exact ⟨room', (UnorderedMap.get?_modify_of_ne _ _ hid).trans hroom', hstate, hrecorded⟩

end Server

end UpsServer
