import UpsServer.GameServer.BuiltMessages
import UpsServer.GameServer.Sockets

namespace UpsServer.IdleUsersRoom

/-- What a client of the idle room is told when a message of his is processed and
he stays. -/
inductive Reply (msg : ProtocolData) (client : ProtocolClient) : ProtocolClient → Prop where
  | denied (hcount : client.reqDeniedCnt < MAX_REQ_DENIED_CNT) : Reply msg client client.sendReqDeniedMsg
  | named {username : Str} (hmethod : msg.method = .ENTER_USERNAME)
      (husername : msg.data.get? "username".toList = some username)
      (hunnamed : client.hasName = false) :
      Reply msg client
        ((client.setClientName username).sendMsg (newProtocolMessage .REQ_ACCEPTED []))
  | listed {roomList : Str} (hmethod : msg.method = .GET_ROOM_LIST) (hname : client.hasName = true) :
      Reply msg client
        (client.sendMsg
          ⟨.REQ_ACCEPTED, (∅ : UnorderedMap Str Str).set "room_list".toList roomList⟩)
  | waits (hmethod : msg.method = .JOIN_GAME) (hname : client.hasName = true) :
      Reply msg client (client.sendMsg (newProtocolMessage .GAME_IDLE []))

theorem Reply.sent {msg : ProtocolData} {client client' : ProtocolClient}
    (h : Reply msg client client') :
    client'.clientFd = client.clientFd ∧ ∃ reply, client'.sent = client.sent ++ [reply] := by
  cases h <;> exact ⟨rfl, _, rfl⟩

/-- What becomes of the clients of the idle room when a message of one of them is
processed. -/
inductive Handled (idle : IdleUsersRoom) (msg : ProtocolData) (clientFd : Int)
    (client : ProtocolClient) : IdleUsersRoom → Option NewGame → Prop where
  | removed : Handled idle msg clientFd client (idle.onClientDisconnect clientFd) none
  | replied {client' : ProtocolClient} {idle' : IdleUsersRoom} (hreply : Reply msg client client')
      (hclients : idle'.clientsMap = idle.clientsMap.set clientFd client') :
      Handled idle msg clientFd client idle' none
  | starts {idle' : IdleUsersRoom} {newGame : NewGame} (hname : client.hasName = true)
      (hclients : idle'.clientsMap = idle.clientsMap) :
      Handled idle msg clientFd client idle' (some newGame)

variable {idle idle' : IdleUsersRoom} {msg : ProtocolData} {clientFd : Int}
  {client : ProtocolClient} {newGame : Option NewGame}

theorem clientsMap_modifyClient (hclient : idle.clientsMap.get? clientFd = some client)
    (f : ProtocolClient → ProtocolClient) :
    (idle.modifyClient clientFd f).clientsMap = idle.clientsMap.set clientFd (f client) := by
  rw [modifyClient, UnorderedMap.modify, hclient]

section

variable (hkeys : idle.StoredUnderOwnFd) (hclient : idle.clientsMap.get? clientFd = some client)
include hkeys hclient

private theorem handled_denyRequest (h : idle.denyRequest clientFd = .ok idle') :
    Handled idle msg clientFd client idle' none := by
  rw [denyRequest, derefClient_eq_ok.mpr hclient, ok_bind, hkeys _ _ hclient] at h
  split at h
  · cases h
    exact .removed
  · rename_i hlimit
    cases h
    exact .replied (.denied (Nat.lt_of_not_le hlimit)) (clientsMap_modifyClient hclient _)

private theorem handled_startsNothing (h : startsNothing (idle.denyRequest clientFd) = .ok (idle', newGame)) :
    Handled idle msg clientFd client idle' newGame := by
  obtain ⟨hok, rfl⟩ := startsNothing_eq_ok.mp h
  exact handled_denyRequest hkeys hclient hok

/-- Whoever is not denied the name he enters is told so. -/
theorem handled_enterUsername {username : Str} (hmethod : msg.method = .ENTER_USERNAME)
    (husername : msg.data.get? "username".toList = some username)
    (hunnamed : client.hasName = false) (h : idle.enterUsername clientFd username = .ok idle') :
    Handled idle msg clientFd client idle' none := by
  rw [enterUsername, derefClient_eq_ok.mpr hclient, ok_bind] at h
  split at h
  · exact handled_denyRequest hkeys hclient h
  · rename_i htaken
    have hpaused : idle.pausedRoomOf username = none :=
      pausedRoomOf_of_free (Bool.eq_false_iff.mpr htaken)
    have hrenamed : (idle.modifyClient clientFd (·.setClientName username)).pausedRoomOf username =
        none := hpaused
    simp only [hrenamed] at h
    obtain ⟨_, rfl⟩ := sendMsg_eq_ok.mp h
    refine .replied (.named hmethod husername hunnamed) ?_
    rw [← clientsMap_modifyClient hclient fun client =>
      (client.setClientName username).sendMsg (newProtocolMessage .REQ_ACCEPTED [])]
    exact UnorderedMap.modify_modify _ _ _ _

private theorem handled_joinGameRoom {gameIdStr : Str} (hmethod : msg.method = .JOIN_GAME)
    (hname : client.hasName = true)
    (h : idle.joinGameRoom clientFd gameIdStr = .ok (idle', newGame)) :
    Handled idle msg clientFd client idle' newGame := by
  unfold joinGameRoom at h
  split at h
  · exact handled_startsNothing hkeys hclient h
  · split at h
    · obtain ⟨player1, _, hrest⟩ := bind_eq_ok.mp h
      obtain ⟨player2, _, hanswer⟩ := bind_eq_ok.mp hrest
      split at hanswer
      · exact handled_startsNothing hkeys hclient hanswer
      · obtain ⟨started, hstart, hstarted⟩ := bind_eq_ok.mp hanswer
        obtain ⟨_, _, _, rfl⟩ := newGameThread_eq_ok hstart
        cases hstarted
        exact .starts hname rfl
    · rename_i gameId _ _ _
      obtain ⟨hok, rfl⟩ := startsNothing_eq_ok.mp h
      obtain ⟨_, rfl⟩ := sendMsg_eq_ok.mp hok
      have hwaits : ({ idle with waitingToJoinGame := idle.waitingToJoinGame.set clientFd gameId } :
          IdleUsersRoom).clientsMap.get? clientFd = some client := hclient
      exact .replied (.waits hmethod hname) (clientsMap_modifyClient hwaits _)

end

/-- Every message of a client of the idle room removes him, is answered once or
starts a game. -/
theorem handled_of_processClientMessage (hkeys : idle.StoredUnderOwnFd)
    (hclient : idle.clientsMap.get? clientFd = some client)
    (h : idle.processClientMessage msg clientFd = .ok (idle', newGame)) :
    Handled idle msg clientFd client idle' newGame := by
  rw [processClientMessage, derefClient_eq_ok.mpr hclient, ok_bind] at h
  split at h
  · cases h
    rw [hkeys _ _ hclient]
    exact .removed
  · rename_i hmethod
    split at h
    · rename_i username husername
      split at h
      · exact handled_startsNothing hkeys hclient h
      · rename_i hname
        obtain ⟨hok, rfl⟩ := startsNothing_eq_ok.mp h
        exact handled_enterUsername hkeys hclient hmethod husername (Bool.eq_false_iff.mpr hname) hok
    · exact handled_startsNothing hkeys hclient h
  · rename_i hmethod
    split at h
    · rename_i hname
      obtain ⟨hok, rfl⟩ := startsNothing_eq_ok.mp h
      obtain ⟨roomList, hlist, hsend⟩ := bind_eq_ok.mp hok
      obtain ⟨_, rfl⟩ := sendMsg_eq_ok.mp hsend
      obtain ⟨lines, rfl⟩ := Server.getRoomList_eq_ok hlist
      exact .replied (.listed hmethod hname) (clientsMap_modifyClient hclient _)
    · exact handled_startsNothing hkeys hclient h
  · rename_i hmethod
    split at h
    · split at h
      · exact handled_joinGameRoom hkeys hclient hmethod ‹_› h
      · exact handled_startsNothing hkeys hclient h
    · exact handled_startsNothing hkeys hclient h
  · exact handled_startsNothing hkeys hclient h

end UpsServer.IdleUsersRoom
