import UpsServer.GameServer.Dispatch
import UpsServer.GameServer.RoomList

namespace UpsServer.IdleUsersRoom

variable {idle idle' : IdleUsersRoom} {hadGame : Int → Prop} {clientFd roomId : Int}
  {leaving : List Int} {client : ProtocolClient} {msg : ProtocolData}

private theorem exists_sendMsg (howns : idle.Owns clientFd) (msg : ProtocolData) :
    idle.sendMsg clientFd msg = .ok (idle.modifyClient clientFd (·.sendMsg msg)) :=
  sendMsg_eq_ok.mpr ⟨howns, rfl⟩

private theorem exists_denyRequest (hclient : idle.clientsMap.get? clientFd = some client) :
    ∃ idle', idle.denyRequest clientFd = .ok idle' := by
  rw [denyRequest, derefClient_eq_ok.mpr hclient, ok_bind]
  split <;> exact ⟨_, rfl⟩

private theorem exists_startsNothing {x : Exec IdleUsersRoom IdleUsersRoom} (h : ∃ idle', x = .ok idle') :
    ∃ idle' newGame, startsNothing x = .ok (idle', newGame) := by
  obtain ⟨idle', hx⟩ := h
  exact ⟨idle', none, startsNothing_eq_ok.mpr ⟨hx, rfl⟩⟩

private theorem exists_enterUsername (hclient : idle.clientsMap.get? clientFd = some client)
    (username : Str) : ∃ idle', idle.enterUsername clientFd username = .ok idle' := by
  rw [enterUsername, derefClient_eq_ok.mpr hclient, ok_bind]
  split
  · exact exists_denyRequest hclient
  · rename_i htaken
    have hpaused : idle.pausedRoomOf username = none :=
      pausedRoomOf_of_free (Bool.eq_false_iff.mpr htaken)
    have hrenamed : (idle.modifyClient clientFd (·.setClientName username)).pausedRoomOf username =
        none := hpaused
    simp only [hrenamed]
    exact ⟨_, exists_sendMsg (owns_modifyClient.mpr ⟨client, hclient⟩) _⟩

private theorem exists_sendRoomList (htables : idle.TablesAgree leaving)
    (hclient : idle.clientsMap.get? clientFd = some client) :
    ∃ idle', idle.sendRoomList clientFd = .ok idle' := by
  obtain ⟨rows, _, htext⟩ := roomListText_eq htables
  obtain ⟨roomList, hlist, _⟩ := Option.bind_eq_some_iff.mp htext
  rw [sendRoomList, toOption_eq_some.mp hlist, ok_bind]
  exact ⟨_, exists_sendMsg ⟨client, hclient⟩ roomList⟩

namespace EventTable

variable (h : idle.EventTable hadGame)
include h

theorem modifyClient (clientFd : Int) (f : ProtocolClient → ProtocolClient) :
    (idle.modifyClient clientFd f).EventTable hadGame :=
  h.congr (sameEvfds_of_rooms rfl rfl) (noneStarted_of_rooms rfl) (fun _ => owns_modifyClient) rfl

theorem onClientDisconnect (hstored : idle.StoredUnderOwnFd) (hfd : idle.isEvfd clientFd = false) :
    (idle.onClientDisconnect clientFd).EventTable hadGame := by
  unfold IdleUsersRoom.onClientDisconnect
  split
  · rename_i client hclient
    refine h.leaves (sameEvfds_of_rooms rfl rfl) (noneStarted_of_rooms rfl) hfd (fun fd => ?_) ?_
    · simp only [Owns, UnorderedMap.get?_erase]
      by_cases hne : fd = clientFd <;> simp [hne]
    · rw [hstored clientFd client hclient]
      exact .inr rfl
  · rename_i hnone
    refine h.leaves (sameEvfds_of_rooms rfl rfl) (noneStarted_of_rooms rfl) hfd (fun fd => ?_)
      (.inl rfl)
    refine (and_iff_left_of_imp ?_).symm
    rintro ⟨client, hclient⟩ rfl
    cases hnone.symm.trans hclient

section Joining

variable (hnew : idle.clientsMap.get? client.clientFd = none)
  (hevfd : idle.isEvfd client.clientFd = false)
include hnew hevfd

theorem welcome : ∃ idle', (idle.storeClient client.clientFd client).welcomeClient client.clientFd =
    .ok idle' ∧ idle'.EventTable hadGame := by
  have hstranger : ¬ idle.Owns client.clientFd := by
    rintro ⟨_, hclient⟩
    cases hnew.symm.trans hclient
  obtain ⟨epoll, hwatch, -⟩ := h.serves.watchClient (h.notMem_keys hevfd hstranger)
    IdleHandler.onClientWrite IdleHandler.onClientDisconnect
  have hjoined : ({ idle with
      epoll := epoll
      clientsMap := idle.clientsMap.set client.clientFd client } : IdleUsersRoom).EventTable
        hadGame := by
    refine h.joins (sameEvfds_of_rooms rfl rfl) (noneStarted_of_rooms rfl) hevfd hstranger hwatch
      (fun fd => ?_) rfl
    simp only [Owns, UnorderedMap.get?_set]
    by_cases hfd : fd = client.clientFd <;> simp [hfd]
  rw [storeClient_of_new hnew, welcomeClient, hwatch, withState_ok, ok_bind]
  refine ⟨_, exists_sendMsg ?_ _, hjoined.modifyClient _ _⟩
  exact ⟨client, UnorderedMap.get?_set_self _ _ _⟩

/-- A client who is refused leaves no trace. -/
theorem refuse :
    ((idle.storeClient client.clientFd client).onClientDisconnect client.clientFd).EventTable
      hadGame := by
  rw [storeClient_of_new hnew, IdleUsersRoom.onClientDisconnect]
  simp only [UnorderedMap.get?_set_self]
  refine h.leaves (sameEvfds_of_rooms rfl rfl) (noneStarted_of_rooms rfl) hevfd (fun fd => ?_)
    (.inr rfl)
  simp only [Owns, UnorderedMap.get?_erase, UnorderedMap.get?_set]
  by_cases hfd : fd = client.clientFd <;> simp [hfd]

end Joining

theorem addNewClient (hnew : idle.clientsMap.get? clientFd = none)
    (hevfd : idle.isEvfd clientFd = false) :
    ∃ idle', idle.addNewClient clientFd = .ok idle' ∧ idle'.EventTable hadGame := by
  unfold IdleUsersRoom.addNewClient
  simp only
  split
  · exact ⟨_, rfl, @refuse idle _ { clientFd := clientFd } h hnew hevfd⟩
  · exact @welcome idle _ { clientFd := clientFd } h hnew hevfd

theorem addClientBack (client : Option ProtocolClient)
    (hnew : ∀ c, client = some c → idle.clientsMap.get? c.clientFd = none ∧
      idle.isEvfd c.clientFd = false) :
    ∃ idle', idle.addClientBack client = .ok idle' ∧ idle'.EventTable hadGame := by
  cases client with
  | none => exact ⟨idle, rfl, h⟩
  | some c => exact h.welcome (hnew c rfl).1 (hnew c rfl).2

/-- The clients who return with a change are let in one after the other. -/
theorem addClientsBack (hstored : idle.StoredUnderOwnFd) {change : GameStateChange}
    (hnodup : (idle.clientFds + change.clientFds).Nodup)
    (hevfd : ∀ fd ∈ change.clientFds, idle.isEvfd fd = false) :
    ∃ first back, idle.addClientBack change.client1 = .ok first ∧
      first.addClientBack change.client2 = .ok back ∧ back.EventTable hadGame := by
  have hmem : ∀ {client : Option ProtocolClient} {c : ProtocolClient}, client = some c →
      c.clientFd ∈ (client.map (·.clientFd)).elim 0 ({·} : Int → Multiset Int) := by
    rintro _ c rfl
    exact Multiset.mem_singleton_self _
  obtain ⟨first, hfirst, htable⟩ := h.addClientBack change.client1 fun c hc =>
    ⟨get?_eq_none_of_nodup hstored hnodup (Multiset.mem_add.mpr (.inl (hmem hc))),
      hevfd _ (Multiset.mem_add.mpr (.inl (hmem hc)))⟩
  have hadmits := admits_addClientBack hfirst
  have hnodup' : (first.clientFds + (change.client2.map (·.clientFd)).elim 0 ({·})).Nodup := by
    refine Multiset.nodup_of_le ?_ hnodup
    rw [GameStateChange.clientFds, ← add_assoc]
    exact Multiset.add_le_add_right hadmits.clientFds_le
  obtain ⟨back, hback, htable'⟩ := htable.addClientBack change.client2 fun c hc =>
    ⟨get?_eq_none_of_nodup (hadmits.stored hstored) hnodup' (hmem hc), by
      rw [hadmits.isEvfd]
      exact hevfd _ (Multiset.mem_add.mpr (.inr (hmem hc)))⟩
  exact ⟨first, back, hfirst, hback, htable'⟩

theorem applyStateChange (hstored : idle.StoredUnderOwnFd) {change : GameStateChange} {room : GameRoom}
    (hroom : idle.gameRooms.get? roomId = some room)
    (hbusy : change.newState = .PAUSED → room.gameState ≠ .IDLE)
    (hnodup : (idle.clientFds + change.clientFds).Nodup)
    (hevfd : ∀ fd ∈ change.clientFds, idle.isEvfd fd = false) :
    ∃ idle', idle.applyStateChange roomId change = .ok idle' ∧ idle'.EventTable hadGame := by
  unfold IdleUsersRoom.applyStateChange
  cases hstate : change.newState with
  | IDLE =>
    obtain ⟨first, back, hfirst, hback, htable⟩ := h.addClientsBack hstored hnodup hevfd
    refine ⟨back.setGameAsIdle roomId, ?_, ?_⟩
    · rw [hfirst, ok_bind, hback]
      rfl
    · exact htable.congr (sameEvfds_of_modify rfl rfl fun _ _ => rfl)
        (noneStarted_of_modify rfl fun _ _ hidle => (hidle rfl).elim) (fun _ => Iff.rfl) rfl
  | RUNNING => exact ⟨idle, rfl, h⟩
  | PAUSED =>
    refine ⟨idle.setGameAsPaused roomId, rfl, ?_⟩
    refine h.congr (sameEvfds_of_modify rfl rfl fun _ _ => rfl)
      (noneStarted_of_modify rfl fun room' hroom' _ => ?_) (fun _ => Iff.rfl) rfl
    cases hroom.symm.trans hroom'
    exact hbusy hstate

/-- A game can be started for two clients in an idle room. -/
theorem newGameThread (htables : idle.TablesAgree leaving)
    (hstrangers : ∀ fd, idle.Owns fd → idle.isEvfd fd = false) {client1 client2 : Int}
    {player1 player2 : ProtocolClient}
    (hidle : ∃ room, idle.gameRooms.get? roomId = some room ∧ room.gameState = .IDLE)
    (h1 : idle.clientsMap.get? client1 = some player1) (hname : player1.hasName = true)
    (h2 : idle.clientsMap.get? client2 = some player2) :
    ∃ idle', idle.newGameThread client1 client2 roomId = .ok idle' ∧
      idle'.EventTable fun id => id = roomId ∨ hadGame id := by
  obtain ⟨room, hroom, hstate⟩ := hidle
  have hcount := htables.rooms.users roomId room hroom
  rw [if_pos hstate] at hcount
  obtain ⟨epoll, hadd, -⟩ :=
    h.serves.addEventHandler room.gameOutput.evfd EPOLLIN (.onGameStateChange roomId)
  have hroom' : ({ idle with epoll := epoll } : IdleUsersRoom).gameRooms.get? roomId = some room :=
    hroom
  obtain ⟨idle', hok, hstarted⟩ :=
    setNewGameAsRunning_ok hroom' hcount player1.clientName player2.clientName
  refine ⟨idle', ?_, ?_⟩
  · rw [IdleUsersRoom.newGameThread, derefRoom_eq_ok.mpr hroom, ok_bind, hadd, withState_ok,
      ok_bind, derefClient_eq_ok.mpr h1, ok_bind, derefClient_eq_ok.mpr h2, ok_bind]
    exact hok
  · rw [hstarted (clientName_of_hasName hname)]
    refine h.starts (sameEvfds_of_modify rfl rfl fun _ _ => rfl) hroom hstrangers
      (fun _ => Iff.rfl) hadd fun id room' hid hroom' hbusy => ?_
    exact ⟨room', (UnorderedMap.get?_modify_of_ne _ _ hid).symm.trans hroom', hbusy⟩

theorem sendClientToGameThread (hstored : idle.StoredUnderOwnFd) (howns : idle.Owns clientFd)
    (hevfd : idle.isEvfd clientFd = false)
    (hroom : ∃ room, idle.gameRooms.get? roomId = some room) :
    ∃ idle', idle.sendClientToGameThread roomId clientFd = .ok idle' ∧ idle'.EventTable hadGame := by
  obtain ⟨client, hclient⟩ := howns
  obtain ⟨room, hroom⟩ := hroom
  have hfd := hstored clientFd client hclient
  refine ⟨{ (idle.unwatchClient clientFd).modifyRoom roomId (GameRoom.pushInput client) with
    waitingToJoinGame := idle.waitingToJoinGame.erase clientFd
    clientsMap := idle.clientsMap.erase clientFd }, ?_, ?_⟩
  · rw [IdleUsersRoom.sendClientToGameThread, derefClient_eq_ok.mpr hclient, ok_bind, hfd]
    simp only [clientAt, derefRoom, unwatchClient, hclient, hroom]
    rfl
  · refine h.leaves (sameEvfds_of_modify rfl rfl fun _ _ => rfl)
      (noneStarted_of_modify rfl fun _ _ hbusy => hbusy) hevfd (fun fd => ?_) (.inl rfl)
    simp only [Owns, UnorderedMap.get?_erase]
    by_cases hne : fd = clientFd <;> simp [hne]

theorem answer (hstored : idle.StoredUnderOwnFd) (htables : idle.TablesAgree leaving)
    (hstrangers : ∀ fd, idle.Owns fd → idle.isEvfd fd = false) {newGame : Option NewGame}
    (hclient : idle.clientsMap.get? clientFd = some client)
    (hanswer : Answer idle msg clientFd client idle' newGame) :
    idle'.EventTable fun id => newGame.map (·.roomId) = some id ∨ hadGame id := by
  have howns : idle.Owns clientFd := ⟨client, hclient⟩
  have hsame : ∀ {idle' : IdleUsersRoom}, idle'.EventTable hadGame →
      idle'.EventTable fun id => none.map NewGame.roomId = some id ∨ hadGame id :=
    fun htable => htable.of_iff fun _ => or_iff_right nofun
  cases hanswer with
  | removed => exact hsame (h.onClientDisconnect hstored (hstrangers clientFd howns))
  | denied | listed => exact hsame (h.modifyClient clientFd _)
  | named => exact hsame ((h.modifyClient clientFd _).modifyClient clientFd _)
  | waits =>
    refine hsame (EventTable.modifyClient ?_ clientFd _)
    exact h.congr (sameEvfds_of_rooms rfl rfl) (noneStarted_of_rooms rfl) (fun _ => Iff.rfl) rfl
  | starts _ hname _ hidle hwaiting hstart =>
    obtain ⟨player2, hplayer2, _⟩ := htables.waiting.named _ _ (waitingClient_eq_some hwaiting)
    obtain ⟨_, hok, htable⟩ := h.newGameThread htables hstrangers hidle hclient hname hplayer2
    cases hstart.symm.trans hok
    exact htable.of_iff fun _ => or_congr_left (Option.some_inj.trans eq_comm)

theorem receiveMessages (hstored : idle.StoredUnderOwnFd)
    (hstrangers : ∀ fd, idle.Owns fd → idle.isEvfd fd = false) (howns : idle.Owns clientFd)
    (received : Option Str) :
    ∃ messages idle', idle.receiveMessages clientFd received = .ok (messages, idle') ∧
      idle'.EventTable hadGame := by
  obtain ⟨client, hclient⟩ := howns
  rw [IdleUsersRoom.receiveMessages, clientAt_eq_ok.mpr hclient, ok_bind, hstored _ _ hclient]
  split
  · exact ⟨_, _, rfl, h.onClientDisconnect hstored (hstrangers clientFd ⟨client, hclient⟩)⟩
  · exact ⟨_, _, rfl, h.modifyClient clientFd _⟩

private theorem exists_joinGameRoom (htables : idle.TablesAgree leaving)
    (hstrangers : ∀ fd, idle.Owns fd → idle.isEvfd fd = false)
    (hclient : idle.clientsMap.get? clientFd = some client) (hname : client.hasName = true)
    (gameIdStr : Str) : ∃ idle' newGame, idle.joinGameRoom clientFd gameIdStr = .ok (idle', newGame) := by
  unfold joinGameRoom
  split
  · exact exists_startsNothing (exists_denyRequest hclient)
  · rename_i gameId hjoinable
    split
    · rename_i client2 hwaiting
      obtain ⟨player2, hplayer2, _⟩ := htables.waiting.named _ _ (waitingClient_eq_some hwaiting)
      rw [joinWaitingClient, derefClient_eq_ok.mpr hclient, ok_bind, derefClient_eq_ok.mpr hplayer2,
        ok_bind]
      split
      · exact exists_startsNothing (exists_denyRequest hclient)
      · obtain ⟨idle', hok, _⟩ := h.newGameThread htables hstrangers
          (joinableRoom_eq_some hjoinable) hclient hname hplayer2
        rw [hok]
        exact ⟨idle', _, rfl⟩
    · refine exists_startsNothing ⟨_, exists_sendMsg ?_ _⟩
      exact ⟨client, hclient⟩

/-- The messages of the clients of the idle room are processed without an
exception. -/
theorem exists_processClientMessage (htables : idle.TablesAgree leaving)
    (hstrangers : ∀ fd, idle.Owns fd → idle.isEvfd fd = false)
    (hclient : idle.clientsMap.get? clientFd = some client) (msg : ProtocolData) :
    ∃ idle' newGame, idle.processClientMessage msg clientFd = .ok (idle', newGame) := by
  have hdenied := exists_startsNothing (exists_denyRequest hclient)
  rw [processClientMessage, derefClient_eq_ok.mpr hclient, ok_bind]
  cases msg.method with
  | TERMINATE_CONNECTION => exact ⟨_, none, rfl⟩
  | ENTER_USERNAME =>
    dsimp only
    split
    · rename_i username _
      split
      · exact hdenied
      · exact exists_startsNothing (exists_enterUsername hclient username)
    · exact hdenied
  | GET_ROOM_LIST =>
    dsimp only
    split
    · exact exists_startsNothing (exists_sendRoomList htables hclient)
    · exact hdenied
  | JOIN_GAME =>
    dsimp only
    split
    · rename_i gameId _
      split
      · rename_i hname
        exact h.exists_joinGameRoom htables hstrangers hclient hname gameId
      · exact hdenied
    · exact hdenied
  | _ => exact hdenied

end EventTable

end UpsServer.IdleUsersRoom
