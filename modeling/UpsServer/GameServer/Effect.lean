import UpsServer.GameServer.Admission

namespace UpsServer

/-- The action ends a handler of the idle thread. -/
def ServerAction.endsHandler : ServerAction → Bool
  | .newClientsDone | .readDone | .stateChangesDone => true
  | _ => false

namespace Server

/-- What a step can do to the server. -/
inductive Effect (s s' : Server) : ServerAction → Prop where
  | accept {clientFd : Int} (hnew : clientFd ∉ s.sockets)
      (heq : s' = { s with
        idle := { s.idle with newClientsQueue := s.idle.newClientsQueue.push clientFd }
        sockets := insert clientFd s.sockets }) : Effect s s' (.accept clientFd)
  | handlerDone {action : ServerAction} (hdone : action.endsHandler = true)
      (heq : s' = { s with pc := .waiting }) :
      Effect s s' action
  | newClientEvent (heq : s' = s.withIdle .collecting
      { s.idle with newClientsQueue := s.idle.newClientsQueue.eventfdRead }) : Effect s s' .newClientEvent
  | addNewClient {clientFd : Int} {data : List Int} {idle : IdleUsersRoom}
      (hdata : s.idle.newClientsQueue.data = clientFd :: data)
      (hadmits : IdleUsersRoom.Admits {clientFd}
        { s.idle with newClientsQueue := { s.idle.newClientsQueue with data := data } } idle)
      (heq : s' = s.withIdle .collecting idle) : Effect s s' .addNewClient
  | receive {clientFd : Int} {received : Option Str} {messages : List ProtocolData}
      {idle : IdleUsersRoom}
      (hreceive : s.idle.receiveMessages clientFd received = .ok (messages, idle))
      (heq : s' = s.withIdle (.reading clientFd messages) idle) :
        Effect s s' (.receive clientFd received)
  | answer {clientFd : Int} {msg : ProtocolData} {messages : List ProtocolData}
      {client : ProtocolClient} {idle : IdleUsersRoom}
      (hpc : s.pc = .reading clientFd (msg :: messages))
      (hclient : s.idle.clientsMap.get? clientFd = some client)
      (hanswer : IdleUsersRoom.Answer s.idle msg clientFd client idle none)
      (heq : s' = s.withIdle (.reading clientFd messages) idle) : Effect s s' .message
  | startGame {clientFd client2 roomId : Int} {msg : ProtocolData} {messages : List ProtocolData}
      {client : ProtocolClient} {idle : IdleUsersRoom} {room : GameRoom} {g : Game}
      (hpc : s.pc = .reading clientFd (msg :: messages))
      (hclient : s.idle.clientsMap.get? clientFd = some client)
      (hstays : ¬ s.idle.Removes msg clientFd client)
      (hroom : s.idle.gameRooms.get? roomId = some room) (hidle : room.gameState = .IDLE)
      (hnew : s.idle.newGameThread clientFd client2 roomId = .ok idle)
      (hstart : Game.start room.gameInput room.gameOutput = .ok g)
      (heq : s' = { s.withIdle (.sending roomId [clientFd, client2] clientFd messages) idle with
        games := s.games.set roomId { game := g } }) : Effect s s' .message
  | sendClient {roomId client clientFd : Int} {clients : List Int} {messages : List ProtocolData}
      {idle : IdleUsersRoom}
      (hpc : s.pc = .sending roomId (client :: clients) clientFd messages)
      (hsend : s.idle.sendClientToGameThread roomId client = .ok idle)
      (heq : s' = s.withIdle (afterSend roomId clients clientFd messages) idle) :
        Effect s s' .sendClient
  | disconnect {clientFd : Int} {event : EventMask}
      (heq : s' = s.withIdle .waiting (s.idle.onClientDisconnect clientFd)) :
      Effect s s' (.disconnect clientFd event)
  | stateChangeEvent {roomId : Int} (heq : s' = s.withIdle (.changing roomId)
      (s.idle.modifyRoom roomId fun room => room.withOutput room.gameOutput.eventfdRead)) :
      Effect s s' (.stateChangeEvent roomId)
  | applyStateChange {roomId : Int} {room : GameRoom} {change : GameStateChange}
      {data : List GameStateChange} {idle : IdleUsersRoom}
      (hroom : s.idle.gameRooms.get? roomId = some room)
      (hdata : room.gameOutput.data = change :: data)
      (happly : (s.idle.modifyRoom roomId
      (GameRoom.withOutput { room.gameOutput with data := data })).applyStateChange
        roomId change = .ok idle)
      (heq : s' = s.withIdle (.changing roomId) idle) : Effect s s' .applyStateChange
  | game {roomId : Int} {action : GameAction} {room : GameRoom} {stored t' : GameThread}
      (hown : action.isOwn = true)
      (hroom : s.idle.gameRooms.get? roomId = some room)
      (hstored : s.games.get? roomId = some stored)
      (hgo : (stored.withQueues room).step action = some t')
      (heq : s' = s.withThread roomId (stored.withQueues room) t') :
        Effect s s' (.game roomId action)

variable {s s' : Server}

theorem resume_eq_some {pc : IdlePc} {x : Exec IdleUsersRoom IdleUsersRoom}
    (h : s.resume pc x = some s') : ∃ idle, x = .ok idle ∧ s' = s.withIdle pc idle := by
  unfold resume at h
  split at h
  · cases h
    exact ⟨_, rfl, rfl⟩
  · cases h

/-- The queues of a room are the same before and after a game is entered for
it. -/
theorem startGame_eq_some {roomId client1 client2 : Int} {idle : IdleUsersRoom} {pc : IdlePc}
    (hnew : s.idle.newGameThread client1 client2 roomId = .ok idle)
    (h : (s.withIdle pc idle).startGame roomId = some s') :
    ∃ room g, s.idle.gameRooms.get? roomId = some room ∧
      Game.start room.gameInput room.gameOutput = .ok g ∧
      s' = { s.withIdle pc idle with games := s.games.set roomId { game := g } } := by
  obtain ⟨usernameA, usernameB, epoll, hidle⟩ := IdleUsersRoom.newGameThread_eq_ok hnew
  obtain ⟨entered, hentered, hstart⟩ := Option.bind_eq_some_iff.mp h
  obtain ⟨g, hg, rfl⟩ := Option.map_eq_some_iff.mp hstart
  change idle.gameRooms.get? roomId = some entered at hentered
  rw [hidle, UnorderedMap.get?_modify_self] at hentered
  obtain ⟨room, hroom, rfl⟩ := Option.map_eq_some_iff.mp hentered
  exact ⟨room, g, hroom, toOption_eq_some.mp hg, rfl⟩

/-- A message is answered, and the read goes on with the rest. -/
theorem answered_of_message (hstored : s.idle.StoredUnderOwnFd) (h : s.step .message = some s') :
    ∃ clientFd msg messages client answered, s.pc = .reading clientFd (msg :: messages) ∧
      s.idle.clientsMap.get? clientFd = some client ∧
      IdleUsersRoom.Answer s.idle msg clientFd client answered.1 answered.2 ∧
      s.afterMessage clientFd messages (.ok answered) = some s' := by
  simp only [step] at h
  split at h
  · rename_i clientFd msg messages hpc
    cases hprocess : s.idle.processClientMessage msg clientFd with
    | error fault =>
      rw [hprocess] at h
      cases h
    | ok answered =>
      rw [hprocess] at h
      obtain ⟨client, hclient, hanswer⟩ :=
        IdleUsersRoom.answer_of_processClientMessage hstored hprocess
      exact ⟨clientFd, msg, messages, client, answered, hpc, hclient, hanswer, h⟩
  · cases h

private theorem effect_of_message (hstored : s.idle.StoredUnderOwnFd) (h : s.step .message = some s') :
    Effect s s' .message := by
  obtain ⟨clientFd, msg, messages, client, ⟨idle, newGame⟩, hpc, hclient, hanswer, hafter⟩ :=
    answered_of_message hstored h
  cases newGame with
  | none =>
    cases hafter
    exact .answer hpc hclient hanswer rfl
  | some newGame =>
    cases hanswer with
    | starts hstays _ _ hidle _ hnew =>
      obtain ⟨room, hroom, hidle⟩ := hidle
      obtain ⟨room', g, hroom', hstart, heq⟩ := startGame_eq_some hnew hafter
      cases hroom.symm.trans hroom'
      exact .startGame hpc hclient hstays hroom hidle hnew hstart heq

/-- The front of the output of a room is popped and applied. -/
theorem applyStateChange_of_step (h : s.step .applyStateChange = some s') :
    ∃ roomId room change data idle, s.pc = .changing roomId ∧
      s.idle.gameRooms.get? roomId = some room ∧ room.gameOutput.data = change :: data ∧
      (s.idle.modifyRoom roomId
        (GameRoom.withOutput { room.gameOutput with data := data })).applyStateChange roomId change =
          .ok idle ∧
      s' = s.withIdle (.changing roomId) idle := by
  simp only [step] at h
  split at h
  · rename_i roomId hpc
    obtain ⟨⟨change, gameOutput⟩, hpop, h⟩ := Option.bind_eq_some_iff.mp h
    obtain ⟨room, hroom, hpop⟩ := Option.bind_eq_some_iff.mp hpop
    obtain ⟨data, hdata, rfl⟩ := EventfdQueue.pop_eq_some.mp hpop
    obtain ⟨idle, happly, heq⟩ := resume_eq_some h
    exact ⟨roomId, room, change, data, idle, hpc, hroom, hdata, happly, heq⟩
  · cases h

theorem effect_of_step (hstored : s.idle.StoredUnderOwnFd) {action : ServerAction}
    (h : s.step action = some s') : Effect s s' action := by
  cases action with
  | accept clientFd =>
    obtain ⟨⟨_, hnew, _⟩, h⟩ := Option.ite_none_right_eq_some.mp h
    cases h
    exact .accept hnew rfl
  | newClientEvent =>
    obtain ⟨_, h⟩ := Option.ite_none_right_eq_some.mp h
    cases h
    exact .newClientEvent rfl
  | addNewClient =>
    obtain ⟨_, h⟩ := Option.ite_none_right_eq_some.mp h
    obtain ⟨⟨clientFd, newClientsQueue⟩, hpop, h⟩ := Option.bind_eq_some_iff.mp h
    obtain ⟨data, hdata, rfl⟩ := EventfdQueue.pop_eq_some.mp hpop
    obtain ⟨idle, hadd, rfl⟩ := resume_eq_some h
    exact .addNewClient hdata (IdleUsersRoom.admits_addNewClient hadd) rfl
  | newClientsDone =>
    obtain ⟨_, h⟩ := Option.ite_none_right_eq_some.mp h
    cases h
    exact .handlerDone rfl rfl
  | receive clientFd received =>
    obtain ⟨_, h⟩ := Option.ite_none_right_eq_some.mp h
    split at h
    · rename_i hreceive
      cases h
      exact .receive hreceive rfl
    · cases h
  | message => exact effect_of_message hstored h
  | sendClient =>
    simp only [step] at h
    split at h
    · rename_i hpc
      obtain ⟨idle, hsend, rfl⟩ := resume_eq_some h
      exact .sendClient hpc hsend rfl
    · cases h
  | readDone =>
    simp only [step] at h
    split at h
    · cases h
      exact .handlerDone rfl rfl
    · cases h
  | disconnect clientFd event =>
    obtain ⟨_, h⟩ := Option.ite_none_right_eq_some.mp h
    cases h
    exact .disconnect rfl
  | stateChangeEvent roomId =>
    obtain ⟨_, h⟩ := Option.ite_none_right_eq_some.mp h
    cases h
    exact .stateChangeEvent rfl
  | applyStateChange =>
    obtain ⟨roomId, room, change, data, idle, _, hroom, hdata, happly, heq⟩ :=
      applyStateChange_of_step h
    exact .applyStateChange hroom hdata happly heq
  | stateChangesDone =>
    simp only [step] at h
    split at h
    · obtain ⟨_, h⟩ := Option.ite_none_right_eq_some.mp h
      cases h
      exact .handlerDone rfl rfl
    · cases h
  | game roomId action =>
    obtain ⟨hown, h⟩ := Option.ite_none_right_eq_some.mp h
    obtain ⟨t, hthread, h⟩ := Option.bind_eq_some_iff.mp h
    obtain ⟨t', hstep, rfl⟩ := Option.map_eq_some_iff.mp h
    obtain ⟨room, hroom, hthread⟩ := Option.bind_eq_some_iff.mp hthread
    obtain ⟨stored, hstored, rfl⟩ := Option.map_eq_some_iff.mp hthread
    exact .game hown hroom hstored hstep rfl

end Server

end UpsServer
