import UpsServer.GameServer.Sockets

namespace UpsServer

/-- The action sends a client to a game, or it is one of a game thread. -/
def ServerAction.reachesGame : ServerAction → Bool
  | .sendClient | .game _ _ => true
  | _ => false

namespace Server

variable {s s' : Server} {roomId : Int}

theorem thread_eq_some {t : GameThread} : s.thread roomId = some t ↔
    ∃ room stored, s.idle.gameRooms.get? roomId = some room ∧ s.games.get? roomId = some stored ∧
      stored.withQueues room = t := by
  rw [thread, Option.bind_eq_some_iff]
  refine exists_congr fun room => ?_
  rw [Option.map_eq_some_iff, exists_and_left]

private theorem withQueues_congr (t : GameThread) {room room' : GameRoom}
    (hinput : room'.gameInput = room.gameInput) (houtput : room'.gameOutput = room.gameOutput) :
    t.withQueues room' = t.withQueues room := by
  rw [GameThread.withQueues, GameThread.withQueues, hinput, houtput]

/-- The clients of the idle room, of a game and in its input differ. -/
theorem Invariant.nodup_thread (h : s.Invariant) {t : GameThread} (ht : s.thread roomId = some t) :
    (s.idle.clientFds + t.game.heldFds).Nodup := by
  obtain ⟨room, stored, hroom, hstored, rfl⟩ := thread_eq_some.mp ht
  have hheld : s.heldFds.Nodup := h.sockets ▸ s.sockets.nodup
  refine Multiset.nodup_of_le ?_ hheld
  have hrooms := UnorderedMap.le_tokens (·.heldFds) hroom
  have hgames := UnorderedMap.le_tokens (·.game.playerFds) hstored
  rw [heldFds_eq, IdleUsersRoom.heldFds]
  calc s.idle.clientFds + (stored.game.playerFds + inputFds room.gameInput)
      ≤ s.idle.clientFds +
        (s.games.tokens (·.game.playerFds) + s.idle.gameRooms.tokens (·.heldFds)) := by
        gcongr
        exact (Multiset.le_add_right _ _).trans hrooms
    _ ≤ s.idle.newClientsQueue.data +
          (s.idle.clientFds + (s.games.tokens (·.game.playerFds) + s.idle.gameRooms.tokens
            (·.heldFds))) :=
        Multiset.le_add_left _ _
    _ = _ := by
        rw [IdleUsersRoom.clientFds]
        ac_rfl

theorem Invariant.nodup_input (h : s.Invariant) {room : GameRoom}
    (hroom : s.idle.gameRooms.get? roomId = some room) :
    (room.gameInput.data.map (·.clientFd)).Nodup := by
  have hheld : s.heldFds.Nodup := h.sockets ▸ s.sockets.nodup
  have hrooms : inputFds room.gameInput ≤ s.idle.gameRooms.tokens (·.heldFds) :=
    (Multiset.le_add_right _ _).trans (UnorderedMap.le_tokens (·.heldFds) hroom)
  rw [heldFds_eq, IdleUsersRoom.heldFds] at hheld
  refine Multiset.coe_nodup.mp (Multiset.nodup_of_le (hrooms.trans ?_) hheld)
  exact (Multiset.le_add_left _ _).trans
    ((Multiset.le_add_left _ _).trans (Multiset.le_add_right _ _))

/-- What a step can do to the rooms and their games. -/
inductive RoomEffect (s s' : Server) : ServerAction → Prop where
  | same {action : ServerAction} (hidle : action.reachesGame = false)
      (hrooms : s'.idle.gameRooms = s.idle.gameRooms)
      (hgames : s'.games = s.games) : RoomEffect s s' action
  | startGame {id : Int} {room : GameRoom} {g : Game} {f : GameRoom → GameRoom}
      (hroom : s.idle.gameRooms.get? id = some room)
      (hstart : Game.start room.gameInput room.gameOutput = .ok g)
      (hf : ∀ room, (f room).gameInput = room.gameInput ∧ (f room).gameOutput = room.gameOutput)
      (hrooms : s'.idle.gameRooms = s.idle.gameRooms.modify id f)
      (hgames : s'.games = s.games.set id { game := g }) :
      RoomEffect s s' .message
  | sendClient {id clientFd : Int} {clients : List Int} {messages : List ProtocolData}
      {client : ProtocolClient} {room : GameRoom}
      (hpc : s.pc = .sending id clients clientFd messages)
      (hclient : client.clientFd ∈ s.idle.clientFds)
      (hroom : s.idle.gameRooms.get? id = some room)
      (hrooms : s'.idle.gameRooms = s.idle.gameRooms.modify id (GameRoom.pushInput client))
      (hgames : s'.games = s.games) :
      RoomEffect s s' .sendClient
  | readOutput {id : Int}
      (hrooms : s'.idle.gameRooms = s.idle.gameRooms.modify id fun room =>
      room.withOutput room.gameOutput.eventfdRead)
      (hgames : s'.games = s.games) : RoomEffect s s' (.stateChangeEvent id)
  | popOutput {id : Int} {room : GameRoom} {change : GameStateChange}
      {data : List GameStateChange} {f : GameRoom → GameRoom}
      (hroom : s.idle.gameRooms.get? id = some room) (hdata : room.gameOutput.data = change :: data)
      (hf : ∀ room, (f room).gameInput = room.gameInput ∧ (f room).gameOutput = room.gameOutput)
      (hrooms : s'.idle.gameRooms =
        s.idle.gameRooms.modify id (f ∘ GameRoom.withOutput { room.gameOutput with data := data }))
      (hgames : s'.games = s.games) : RoomEffect s s' .applyStateChange
  | game {id : Int} {action : GameAction} {room : GameRoom} {stored t' : GameThread}
      (hown : action.isOwn = true)
      (hroom : s.idle.gameRooms.get? id = some room) (hstored : s.games.get? id = some stored)
      (hgo : (stored.withQueues room).step action = some t')
      (hrooms : s'.idle.gameRooms = s.idle.gameRooms.modify id (GameRoom.withQueuesOf t'))
      (hgames : s'.games = if t'.pc = .finished then s.games.erase id else s.games.set id t') :
      RoomEffect s s' (.game id action)

theorem roomEffect_of_step (hstored : s.idle.StoredUnderOwnFd) {action : ServerAction}
    (h : s.step action = some s') : RoomEffect s s' action := by
  cases effect_of_step hstored h with
  | accept _ heq | newClientEvent heq =>
    subst heq
    exact .same rfl rfl rfl
  | @handlerDone action hdone heq =>
    subst heq
    refine .same ?_ rfl rfl
    cases action with
    | newClientsDone | readDone | stateChangesDone => rfl
    | _ => cases hdone
  | addNewClient _ hadmits heq =>
    subst heq
    exact .same rfl hadmits.gameRooms rfl
  | receive hreceive heq =>
    subst heq
    exact .same rfl (IdleUsersRoom.admits_receiveMessages hreceive).gameRooms rfl
  | answer _ _ hanswer heq =>
    subst heq
    exact .same rfl (IdleUsersRoom.admits_answer hanswer).gameRooms rfl
  | disconnect heq =>
    subst heq
    exact .same rfl (IdleUsersRoom.admits_onClientDisconnect s.idle _).gameRooms rfl
  | startGame _ _ _ hroom _ hnew hstart heq =>
    obtain ⟨usernameA, usernameB, epoll, hidle⟩ := IdleUsersRoom.newGameThread_eq_ok hnew
    subst heq hidle
    exact .startGame
      (f := ({ · with gameState := .RUNNING, usernameA := usernameA, usernameB := usernameB }))
      hroom hstart
      (fun _ => ⟨rfl, rfl⟩) rfl rfl
  | sendClient hpc hsend heq =>
    obtain ⟨client, room, hclient, _, hroom, hidle⟩ :=
      IdleUsersRoom.sendClientToGameThread_eq_ok hstored hsend
    subst heq hidle
    exact .sendClient hpc
      (UnorderedMap.mem_tokens.mpr ⟨_, client, hclient, Multiset.mem_singleton_self _⟩) hroom rfl
      rfl
  | stateChangeEvent heq =>
    subst heq
    exact .readOutput rfl rfl
  | applyStateChange hroom hdata happly heq =>
    obtain ⟨f, hf, hqueues⟩ := IdleUsersRoom.gameRooms_applyStateChange happly
    subst heq
    refine .popOutput hroom hdata hqueues ?_ rfl
    rw [withIdle, hf, IdleUsersRoom.modifyRoom, UnorderedMap.modify_modify]
  | game hown hroom hstored hgo heq =>
    subst heq
    exact .game hown hroom hstored hgo rfl rfl

/-- The thread of a room after one of the rooms and its game have changed. -/
theorem thread_modify {id : Int} {f : GameRoom → GameRoom} {t' : GameThread}
    (hrooms : s'.idle.gameRooms = s.idle.gameRooms.modify id f)
    (hgames : ∀ id', id' ≠ id → s'.games.get? id' = s.games.get? id')
    (ht' : s'.thread roomId = some t') :
    s.thread roomId = some t' ∨ roomId = id ∧ ∃ room stored, s.idle.gameRooms.get? roomId = some room ∧
      s'.games.get? roomId = some stored ∧ stored.withQueues (f room) = t' := by
  obtain ⟨room', stored, hroom', hstored, rfl⟩ := thread_eq_some.mp ht'
  rw [hrooms] at hroom'
  by_cases hid : roomId = id
  · subst hid
    rw [UnorderedMap.get?_modify_self] at hroom'
    obtain ⟨room, hroom, rfl⟩ := Option.map_eq_some_iff.mp hroom'
    exact .inr ⟨rfl, room, stored, hroom, hstored, rfl⟩
  · rw [UnorderedMap.get?_modify_of_ne _ _ hid] at hroom'
    rw [hgames roomId hid] at hstored
    exact .inl (thread_eq_some.mpr ⟨room', stored, hroom', hstored, rfl⟩)

/-- What a step of the server does to the thread of a room: nothing, or one of
the steps of a game thread, or it starts the thread. -/
theorem thread_step (h : s.Invariant) {action : ServerAction} (hstep : s.step action = some s')
    {t' : GameThread} (ht' : s'.thread roomId = some t') :
    s.thread roomId = some t' ∨ (∃ t action, s.thread roomId = some t ∧ t.step action = some t') ∨
      GameThread.system.init t' := by
  cases roomEffect_of_step h.stored hstep with
  | same _ hrooms hgames =>
    left
    rwa [thread, hrooms, hgames] at ht'
  | @startGame _ room _ _ hroom hstart hf hrooms hgames =>
    refine (thread_modify hrooms (fun _ hid => ?_) ht').imp_right fun hchanged => .inr ?_
    · rw [hgames, UnorderedMap.get?_set_of_ne _ _ hid]
    · obtain ⟨rfl, _, stored, hroom', hstored, rfl⟩ := hchanged
      cases hroom.symm.trans hroom'
      rw [hgames, UnorderedMap.get?_set_self] at hstored
      cases hstored
      rw [withQueues_congr _ (hf room).1 (hf room).2]
      refine ⟨room.gameInput, room.gameOutput, h.nodup_input hroom, ?_, rfl⟩
      obtain ⟨gameEpoll, rfl⟩ := Game.start_eq_ok hstart
      exact hstart
  | @sendClient _ _ _ _ client _ _ hclient hroom hrooms hgames =>
    refine (thread_modify hrooms (fun _ _ => by rw [hgames]) ht').imp_right fun hchanged => .inl ?_
    obtain ⟨rfl, room, stored, hroom', hstored, rfl⟩ := hchanged
    rw [hgames] at hstored
    have hthread : s.thread roomId = some (stored.withQueues room) :=
      thread_eq_some.mpr ⟨room, stored, hroom', hstored, rfl⟩
    have hdisjoint := (Multiset.nodup_add.mp (h.nodup_thread hthread)).2.2
    refine ⟨stored.withQueues room, .deliver client, hthread, ?_⟩
    rw [GameThread.step, if_neg (Multiset.disjoint_left.mp hdisjoint hclient)]
    rfl
  | readOutput hrooms hgames =>
    refine (thread_modify hrooms (fun _ _ => by rw [hgames]) ht').imp_right fun hchanged => .inl ?_
    obtain ⟨rfl, room, stored, hroom, hstored, rfl⟩ := hchanged
    rw [hgames] at hstored
    exact ⟨stored.withQueues room, .readOutput,
      thread_eq_some.mpr ⟨room, stored, hroom, hstored, rfl⟩, rfl⟩
  | @popOutput _ room change data _ hroom hdata hf hrooms hgames =>
    refine (thread_modify hrooms (fun _ _ => by rw [hgames]) ht').imp_right fun hchanged => .inl ?_
    obtain ⟨rfl, _, stored, hroom', hstored, rfl⟩ := hchanged
    cases hroom.symm.trans hroom'
    rw [hgames] at hstored
    have hpop : (stored.withQueues room).game.gameOutput.pop =
        some (change, { room.gameOutput with data := data }) :=
      EventfdQueue.pop_eq_some.mpr ⟨data, hdata, rfl⟩
    refine ⟨stored.withQueues room, .takeOutput,
      thread_eq_some.mpr ⟨room, stored, hroom, hstored, rfl⟩, ?_⟩
    rw [Function.comp_apply, withQueues_congr stored (hf _).1 (hf _).2, GameThread.step, hpop]
    rfl
  | @game _ action room stored _ hown hroom hstored hgo hrooms hgames =>
    refine (thread_modify hrooms (fun _ hid => games_of_ne hgames hid) ht').imp_right
      fun hchanged => .inl ?_
    obtain ⟨rfl, room', stored', hroom', hstored', rfl⟩ := hchanged
    cases hroom.symm.trans hroom'
    rw [hgames] at hstored'
    split at hstored'
    · rw [UnorderedMap.get?_erase_self] at hstored'
      cases hstored'
    · rw [UnorderedMap.get?_set_self] at hstored'
      cases hstored'
      exact ⟨stored.withQueues room, action,
        thread_eq_some.mpr ⟨room, stored, hroom, hstored, rfl⟩, hgo⟩

/-- The threads of a running server are game threads: whatever holds of all runs
of a game thread holds of them. -/
theorem reachable_thread (h : system.Reachable s) {t : GameThread} (ht : s.thread roomId = some t) :
    GameThread.system.Reachable t := by
  induction h generalizing t with
  | init h =>
    obtain ⟨_, _, _, _, _, _, _, _, hgames, _⟩ := h
    obtain ⟨_, stored, _, hstored, _⟩ := thread_eq_some.mp ht
    rw [hgames] at hstored
    cases hstored
  | step hreach hstep ih =>
    rcases thread_step (invariant_of_reachable hreach) hstep ht
        with hsame | ⟨t₀, action, ht₀, hgo⟩ | hinit
    · exact ih hsame
    · exact .step (ih ht₀) hgo
    · exact .init hinit

end Server

end UpsServer
