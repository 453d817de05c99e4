import UpsServer.GameServer.IdleUsersRoom

namespace UpsServer.IdleUsersRoom

/-- Every client of the idle room is stored under his own descriptor. -/
def StoredUnderOwnFd (idle : IdleUsersRoom) : Prop :=
  ∀ clientFd client, idle.clientsMap.get? clientFd = some client → client.clientFd = clientFd

/-- A request to join is denied: there is no such idle room, or the client is
already waiting for it. -/
def DeniesJoin (idle : IdleUsersRoom) (clientFd : Int) (gameIdStr : Str) : Prop :=
  ∀ gameId, idle.joinableRoom gameIdStr = some gameId → idle.waitingClient gameId = some clientFd

instance (idle : IdleUsersRoom) (clientFd : Int) (gameIdStr : Str) :
    Decidable (idle.DeniesJoin clientFd gameIdStr) :=
  inferInstanceAs (Decidable (∀ gameId ∈ idle.joinableRoom gameIdStr, _))

/-- The messages that are answered by a denial. -/
def IsDenied (idle : IdleUsersRoom) (msg : ProtocolData) (clientFd : Int)
    (client : ProtocolClient) : Prop :=
  match msg.method with
  | .TERMINATE_CONNECTION => False
  | .ENTER_USERNAME => ∀ username, msg.data.get? "username".toList = some username →
      client.hasName = true ∨ idle.isUsernameTaken client username = true
  | .GET_ROOM_LIST => client.hasName = false
  | .JOIN_GAME => ∀ gameId, msg.data.get? "game_id".toList = some gameId →
      client.hasName = false ∨ idle.DeniesJoin clientFd gameId
  | _ => True

instance (idle : IdleUsersRoom) (msg : ProtocolData) (clientFd : Int) (client : ProtocolClient) :
    Decidable (idle.IsDenied msg clientFd client) :=
  match hmethod : msg.method with
  | .TERMINATE_CONNECTION => isFalse (by simp [IsDenied, hmethod])
  | .ENTER_USERNAME =>
    decidable_of_iff (∀ username ∈ msg.data.get? "username".toList,
      client.hasName = true ∨ idle.isUsernameTaken client username = true) (by simp [IsDenied, hmethod])
  | .GET_ROOM_LIST => decidable_of_iff (client.hasName = false) (by simp [IsDenied, hmethod])
  | .JOIN_GAME =>
    decidable_of_iff (∀ gameId ∈ msg.data.get? "game_id".toList,
      client.hasName = false ∨ idle.DeniesJoin clientFd gameId) (by simp [IsDenied, hmethod])
  | .CONNECTED_OK | .REQ_ACCEPTED | .REQ_DENIED | .PARSING_FAILED | .UNINITIALIZED | .GAME_IDLE
  | .GAME_LEAVE | .GAME_COMMAND | .GAME_STATE | .GAME_PING => isTrue (by simp [IsDenied, hmethod])

/-- The messages that end the connection of their sender. -/
def Removes (idle : IdleUsersRoom) (msg : ProtocolData) (clientFd : Int) (client : ProtocolClient) :
    Prop :=
  msg.method = .TERMINATE_CONNECTION ∨ idle.IsDenied msg clientFd client ∧
    client.reqDeniedCnt ≥ MAX_REQ_DENIED_CNT

instance (idle : IdleUsersRoom) (msg : ProtocolData) (clientFd : Int) (client : ProtocolClient) :
    Decidable (idle.Removes msg clientFd client) :=
  inferInstanceAs (Decidable (_ ∨ _ ∧ _))

/-- What `_processClientMessage` can do. -/
inductive Answer (idle : IdleUsersRoom) (msg : ProtocolData) (clientFd : Int)
    (client : ProtocolClient) : IdleUsersRoom → Option NewGame → Prop where
  | removed (h : idle.Removes msg clientFd client) : Answer idle msg clientFd client
      (idle.onClientDisconnect clientFd) none
  | denied (h : ¬ idle.Removes msg clientFd client) :
      Answer idle msg clientFd client (idle.modifyClient clientFd ProtocolClient.sendReqDeniedMsg)
        none
  | named {username : Str} (h : ¬ idle.Removes msg clientFd client)
      (hunnamed : client.hasName = false)
      (hfree : idle.isUsernameTaken client username = false) :
      Answer idle msg clientFd client
        ((idle.modifyClient clientFd (·.setClientName username)).modifyClient clientFd
        (·.sendMsg (newProtocolMessage .REQ_ACCEPTED []))) none
  | listed {roomList : ProtocolData} (h : ¬ idle.Removes msg clientFd client)
      (hlist : idle.getRoomList = .ok roomList) :
      Answer idle msg clientFd client (idle.modifyClient clientFd (·.sendMsg roomList)) none
  | waits {gameId : Int} (h : ¬ idle.Removes msg clientFd client) (hname : client.hasName = true)
      (hidle : ∃ room, idle.gameRooms.get? gameId = some room ∧ room.gameState = .IDLE)
      (hnobody : idle.waitingClient gameId = none) :
      Answer idle msg clientFd client
        ({ idle with waitingToJoinGame := idle.waitingToJoinGame.set clientFd gameId }.modifyClient
        clientFd
          (·.sendMsg (newProtocolMessage .GAME_IDLE []))) none
  | starts {gameId client2 : Int} {idle' : IdleUsersRoom} (h : ¬ idle.Removes msg clientFd client)
      (hname : client.hasName = true) (hne : client2 ≠ clientFd)
      (hidle : ∃ room, idle.gameRooms.get? gameId = some room ∧ room.gameState = .IDLE)
      (hwaiting : idle.waitingClient gameId = some client2)
      (hstart : idle.newGameThread clientFd client2 gameId = .ok idle') :
      Answer idle msg clientFd client idle' (some ⟨gameId, clientFd, client2⟩)

section

variable {idle idle' : IdleUsersRoom} {msg : ProtocolData} {clientFd : Int}
    {client : ProtocolClient}

theorem derefClient_eq_ok :
    idle.derefClient clientFd = .ok client ↔ idle.clientsMap.get? clientFd = some client := by
  unfold derefClient
  split <;> simp_all

theorem clientAt_eq_ok :
    idle.clientAt clientFd = .ok client ↔ idle.clientsMap.get? clientFd = some client := by
  unfold clientAt
  split <;> simp_all

theorem derefRoom_eq_ok {roomId : Int} {room : GameRoom} :
    idle.derefRoom roomId = .ok room ↔ idle.gameRooms.get? roomId = some room := by
  unfold derefRoom
  split <;> simp_all

theorem sendMsg_eq_ok :
    idle.sendMsg clientFd msg = .ok idle' ↔
      (∃ client, idle.clientsMap.get? clientFd = some client) ∧
        idle' = idle.modifyClient clientFd (·.sendMsg msg) := by
  constructor
  · intro h
    obtain ⟨client, hclient, h⟩ := bind_eq_ok.mp h
    cases h
    exact ⟨⟨client, derefClient_eq_ok.mp hclient⟩, rfl⟩
  · rintro ⟨⟨client, hclient⟩, rfl⟩
    exact bind_eq_ok.mpr ⟨client, derefClient_eq_ok.mpr hclient, rfl⟩

theorem startsNothing_eq_ok {x : Exec IdleUsersRoom IdleUsersRoom} {newGame : Option NewGame} :
    startsNothing x = .ok (idle', newGame) ↔ x = .ok idle' ∧ newGame = none := by
  constructor
  · intro h
    obtain ⟨_, hx, h⟩ := bind_eq_ok.mp h
    cases h
    exact ⟨hx, rfl⟩
  · rintro ⟨hx, rfl⟩
    exact bind_eq_ok.mpr ⟨idle', hx, rfl⟩

/-- A joinable room is one that exists and is idle. -/
theorem joinableRoom_eq_some {gameIdStr : Str} {gameId : Int}
    (h : idle.joinableRoom gameIdStr = some gameId) :
    ∃ room, idle.gameRooms.get? gameId = some room ∧ room.gameState = .IDLE := by
  unfold joinableRoom at h
  split at h
  · cases h
  · obtain ⟨hroom, h⟩ := Option.ite_none_right_eq_some.mp h
    cases h
    simpa [Option.any_eq_true] using hroom

/-- A denial is counted until the limit is reached. -/
theorem answer_denyRequest (hkeys : idle.StoredUnderOwnFd)
    (hclient : idle.clientsMap.get? clientFd = some client)
    (hmethod : msg.method ≠ .TERMINATE_CONNECTION) (hdenied : idle.IsDenied msg clientFd client)
    (h : idle.denyRequest clientFd = .ok idle') : Answer idle msg clientFd client idle' none := by
  rw [denyRequest, derefClient_eq_ok.mpr hclient, ok_bind, hkeys _ _ hclient] at h
  split at h
  · rename_i hlimit
    cases h
    exact .removed (.inr ⟨hdenied, hlimit⟩)
  · rename_i hlimit
    cases h
    exact .denied fun hremoves => hremoves.elim hmethod fun hremoves => hlimit hremoves.2

/-- The search for a paused game that the client could rejoin comes after the
searches that deny his name. -/
theorem pausedRoomOf_of_free {username : Str}
    (hfree : idle.isUsernameTaken client username = false) : idle.pausedRoomOf username = none := by
  simp only [isUsernameTaken, Bool.or_eq_false_iff, Option.isSome_eq_false_iff,
    Option.isNone_iff_eq_none] at hfree
  exact hfree.2

end

variable {idle idle' : IdleUsersRoom} {msg : ProtocolData} {clientFd : Int}
    {client : ProtocolClient}

private theorem answer_enterUsername (hkeys : idle.StoredUnderOwnFd)
    (hclient : idle.clientsMap.get? clientFd = some client) {username : Str}
    (hmethod : msg.method = .ENTER_USERNAME)
    (husername : msg.data.get? "username".toList = some username)
    (hunnamed : client.hasName = false) (h : idle.enterUsername clientFd username = .ok idle') :
    Answer idle msg clientFd client idle' none := by
  rw [enterUsername, derefClient_eq_ok.mpr hclient, ok_bind] at h
  by_cases htaken : idle.isUsernameTaken client username = true
  · rw [if_pos htaken] at h
    refine answer_denyRequest hkeys hclient (by rw [hmethod]; decide) ?_ h
    rw [IsDenied, hmethod]
    rintro username' husername'
    rw [husername] at husername'
    cases husername'
    exact .inr htaken
  · rw [if_neg htaken] at h
    have hfree : idle.isUsernameTaken client username = false := by simpa using htaken
    have hpaused := pausedRoomOf_of_free hfree
    have hmodified : (idle.modifyClient clientFd (·.setClientName username)).pausedRoomOf username =
        none := hpaused
    simp only [hmodified] at h
    obtain ⟨_, rfl⟩ := sendMsg_eq_ok.mp h
    refine .named (fun hremoves => ?_) hunnamed hfree
    rcases hremoves with hterminate | ⟨hdenied, _⟩
    · rw [hmethod] at hterminate
      cases hterminate
    · rw [IsDenied, hmethod] at hdenied
      rcases hdenied username husername with hname | htaken'
      · rw [hunnamed] at hname
        cases hname
      · exact htaken htaken'

private theorem answer_joinGameRoom (hkeys : idle.StoredUnderOwnFd)
    (hclient : idle.clientsMap.get? clientFd = some client) {gameIdStr : Str}
    {newGame : Option NewGame} (hmethod : msg.method = .JOIN_GAME)
    (hfield : msg.data.get? "game_id".toList = some gameIdStr) (hname : client.hasName = true)
    (h : idle.joinGameRoom clientFd gameIdStr = .ok (idle', newGame)) :
    Answer idle msg clientFd client idle' newGame := by
  have hremoves : ∀ gameId, idle.joinableRoom gameIdStr = some gameId →
      idle.waitingClient gameId ≠ some clientFd →
      ¬ idle.Removes msg clientFd client := by
    rintro gameId hroom hwaiting (hterminate | ⟨hdenied, _⟩)
    · rw [hmethod] at hterminate
      cases hterminate
    · rw [IsDenied, hmethod] at hdenied
      rcases hdenied gameIdStr hfield with hunnamed | hjoin
      · rw [hname] at hunnamed
        cases hunnamed
      · exact hwaiting (hjoin gameId hroom)
  have hdeny : idle.DeniesJoin clientFd gameIdStr →
      startsNothing (idle.denyRequest clientFd) = .ok (idle', newGame) →
      Answer idle msg clientFd client idle' newGame := by
    intro hjoin h
    obtain ⟨hok, rfl⟩ := startsNothing_eq_ok.mp h
    refine answer_denyRequest hkeys hclient (by rw [hmethod]; decide) ?_ hok
    rw [IsDenied, hmethod]
    rintro gameIdStr' hfield'
    rw [hfield] at hfield'
    cases hfield'
    exact .inr hjoin
  unfold joinGameRoom at h
  split at h
  · rename_i hroom
    exact hdeny (fun gameId hgameId => by rw [hroom] at hgameId; cases hgameId) h
  · rename_i gameId hroom
    split at h
    · rename_i client2 hwaiting
      obtain ⟨player1, hplayer1, hrest⟩ := bind_eq_ok.mp h
      obtain ⟨player2, hplayer2, hanswer⟩ := bind_eq_ok.mp hrest
      rw [derefClient_eq_ok] at hplayer1 hplayer2
      rw [hkeys _ _ hplayer1, hkeys _ _ hplayer2] at hanswer
      split at hanswer
      · rename_i hsame
        subst hsame
        refine hdeny (fun gameId' hgameId' => ?_) hanswer
        rw [hroom] at hgameId'
        cases hgameId'
        exact hwaiting
      · rename_i hne
        obtain ⟨started, hstart, hstarted⟩ := bind_eq_ok.mp hanswer
        cases hstarted
        refine .starts (hremoves gameId hroom ?_) hname (Ne.symm hne) (joinableRoom_eq_some hroom)
          hwaiting hstart
        rw [hwaiting]
        exact fun heq => hne (Option.some.inj heq).symm
    · rename_i hwaiting
      obtain ⟨hok, rfl⟩ := startsNothing_eq_ok.mp h
      obtain ⟨_, rfl⟩ := sendMsg_eq_ok.mp hok
      refine .waits (hremoves gameId hroom ?_) hname (joinableRoom_eq_some hroom) hwaiting
      rw [hwaiting]
      exact fun heq => nomatch heq

/-- The answers cover every message that is processed. -/
theorem answer_of_processClientMessage (hkeys : idle.StoredUnderOwnFd) {newGame : Option NewGame}
    (h : idle.processClientMessage msg clientFd = .ok (idle', newGame)) :
    ∃ client, idle.clientsMap.get? clientFd = some client ∧
      Answer idle msg clientFd client idle' newGame := by
  obtain ⟨client, hclient, h⟩ := bind_eq_ok.mp h
  rw [derefClient_eq_ok] at hclient
  refine ⟨client, hclient, ?_⟩
  have hdeny : msg.method ≠ .TERMINATE_CONNECTION → idle.IsDenied msg clientFd client →
      startsNothing (idle.denyRequest clientFd) = .ok (idle', newGame) →
        Answer idle msg clientFd client idle' newGame := by
    intro hmethod hdenied h
    obtain ⟨hok, rfl⟩ := startsNothing_eq_ok.mp h
    exact answer_denyRequest hkeys hclient hmethod hdenied hok
  split at h
  · rename_i hmethod
    cases h
    rw [hkeys _ _ hclient]
    exact .removed (.inl hmethod)
  · rename_i hmethod
    have hne : msg.method ≠ .TERMINATE_CONNECTION := by rw [hmethod]; decide
    split at h
    · rename_i username husername
      split at h
      · rename_i hname
        exact hdeny hne (by rw [IsDenied, hmethod]; exact fun _ _ => .inl hname) h
      · rename_i hname
        obtain ⟨hok, rfl⟩ := startsNothing_eq_ok.mp h
        exact answer_enterUsername hkeys hclient hmethod husername (by simpa using hname) hok
    · rename_i husername
      exact hdeny hne (by rw [IsDenied, hmethod]; intro _ h; rw [husername] at h; cases h) h
  · rename_i hmethod
    have hne : msg.method ≠ .TERMINATE_CONNECTION := by rw [hmethod]; decide
    split at h
    · rename_i hname
      obtain ⟨hok, rfl⟩ := startsNothing_eq_ok.mp h
      obtain ⟨roomList, hlist, hsend⟩ := bind_eq_ok.mp hok
      obtain ⟨_, rfl⟩ := sendMsg_eq_ok.mp hsend
      refine .listed (fun hremoves => hremoves.elim hne fun hdenied => ?_) hlist
      rw [IsDenied, hmethod, hname] at hdenied
      cases hdenied.1
    · rename_i hname
      exact hdeny hne (by rw [IsDenied, hmethod]; simpa using hname) h
  · rename_i hmethod
    have hne : msg.method ≠ .TERMINATE_CONNECTION := by rw [hmethod]; decide
    split at h
    · rename_i gameIdStr hfield
      split at h
      · rename_i hname
        exact answer_joinGameRoom hkeys hclient hmethod hfield hname h
      · rename_i hname
        exact hdeny hne (by rw [IsDenied, hmethod]; exact fun _ _ => .inl (by simpa using hname)) h
    · rename_i hfield
      exact hdeny hne (by rw [IsDenied, hmethod]; intro _ h; rw [hfield] at h; cases h) h
  · rename_i hterminate henter hlist hjoin
    refine hdeny hterminate ?_ h
    unfold IsDenied
    split <;> trivial

end UpsServer.IdleUsersRoom
