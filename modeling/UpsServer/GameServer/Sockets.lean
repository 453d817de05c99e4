import UpsServer.GameServer.Effect

namespace UpsServer

/-- How far a game and the room it belongs to are: no game, a game whose pauses
may not have been heard of yet, or a game that has ended without the idle room
knowing. -/
inductive Phase : Option GameThread → GameRoom → Prop where
  | idle {room : GameRoom} (hstate : room.gameState = .IDLE)
      (houtput : room.gameOutput.data = []) : Phase none room
  | running {room : GameRoom} {t : GameThread} {k : Nat} (hstate : room.gameState ≠ .IDLE)
      (houtput : room.gameOutput.data = List.replicate k { newState := .PAUSED }) :
        Phase (some t) room
  | ended {room : GameRoom} {k : Nat} {client1 client2 : Option ProtocolClient}
      (hstate : room.gameState ≠ .IDLE)
      (houtput : room.gameOutput.data =
        List.replicate k { newState := .PAUSED } ++
          [{ newState := .IDLE, client1 := client1, client2 := client2 }]) :
      Phase none room

theorem Phase.congr {game : Option GameThread} {room room' : GameRoom} (h : Phase game room)
    (hstate : room'.gameState = room.gameState)
    (houtput : room'.gameOutput.data = room.gameOutput.data) : Phase game room' := by
  cases h with
  | idle hidle hnone => exact .idle (hstate.trans hidle) (houtput.trans hnone)
  | running hbusy hpauses => exact .running (hstate ▸ hbusy) (houtput.trans hpauses)
  | ended hbusy hend => exact .ended (hstate ▸ hbusy) (houtput.trans hend)

/-- A room is idle when it has no game and none is about to be reported. -/
theorem Phase.of_idle {game : Option GameThread} {room : GameRoom} (h : Phase game room)
    (hstate : room.gameState = .IDLE) : game = none ∧ room.gameOutput.data = [] := by
  cases h with
  | idle _ hnone => exact ⟨rfl, hnone⟩
  | running hbusy => exact (hbusy hstate).elim
  | ended hbusy => exact (hbusy hstate).elim

/-- A change that is popped is a pause, or the end of a game that the idle room
did not know of. -/
theorem Phase.pop {game : Option GameThread} {room : GameRoom} {change : GameStateChange}
    {data : List GameStateChange} (h : Phase game room)
    (hdata : room.gameOutput.data = change :: data) :
    (change = { newState := .PAUSED } ∧ ∀ room' : GameRoom,
      room'.gameState ≠ .IDLE → room'.gameOutput.data = data → Phase game room') ∨
      (change.newState = .IDLE ∧ game = none ∧ data = []) := by
  cases h with
  | idle _ hnone =>
    rw [hnone] at hdata
    cases hdata
  | @running _ _ k _ hpauses =>
    rw [hpauses] at hdata
    cases k with
    | zero => cases hdata
    | succ k =>
      obtain ⟨hchange, hrest⟩ := List.cons.inj hdata
      exact .inl ⟨hchange.symm, fun room' hbusy hroom' => .running hbusy (hroom'.trans hrest.symm)⟩
  | @ended _ k _ _ _ hend =>
    rw [hend] at hdata
    cases k with
    | zero =>
      obtain ⟨hchange, hrest⟩ := List.cons.inj hdata
      exact .inr ⟨by rw [← hchange], rfl, hrest.symm⟩
    | succ k =>
      obtain ⟨hchange, hrest⟩ := List.cons.inj hdata
      exact .inl ⟨hchange.symm, fun room' hbusy hroom' => .ended hbusy (hroom'.trans hrest.symm)⟩

/-- What holds of all rooms still does after one room and its game have changed. -/
theorem forall_rooms_modify (P : Int → Option GameThread → GameRoom → Prop)
    {rooms : UnorderedMap Int GameRoom} {games games' : UnorderedMap Int GameThread} {roomId : Int}
    {f : GameRoom → GameRoom}
    (h : ∀ id room, rooms.get? id = some room → P id (games.get? id) room)
    (hgames : ∀ id, id ≠ roomId → games'.get? id = games.get? id)
    (hf : ∀ room, rooms.get? roomId = some room → P roomId (games'.get? roomId) (f room)) (id : Int)
    (room : GameRoom) (hroom : (rooms.modify roomId f).get? id = some room) :
    P id (games'.get? id) room := by
  by_cases hid : id = roomId
  · subst hid
    rw [UnorderedMap.get?_modify_self] at hroom
    obtain ⟨before, hbefore, rfl⟩ := Option.map_eq_some_iff.mp hroom
    exact hf before hbefore
  · rw [UnorderedMap.get?_modify_of_ne _ _ hid] at hroom
    rw [hgames id hid]
    exact h id room hroom

namespace Server

/-- All sockets are accounted for, and the rooms and their games agree on their
phases. -/
structure Invariant (s : Server) : Prop where
  stored : s.idle.StoredUnderOwnFd
  phase : ∀ roomId room, s.idle.gameRooms.get? roomId = some room → Phase (s.games.get? roomId) room
  sockets : s.heldFds = s.sockets.val

/-- What is left of the sockets when some of the clients have been dropped. -/
theorem remaining_val {s : Server} {before after : List Int} {fds : Multiset Int}
    (hclosed : before <+: after) (h : fds + after = s.sockets.val + before) :
    fds = (s.remaining before after).val := by
  obtain ⟨dropped, rfl⟩ := hclosed
  rw [← Multiset.coe_add, add_left_comm, add_comm s.sockets.val, add_right_inj] at h
  have hnodup : (fds + dropped).Nodup := h ▸ s.sockets.nodup
  obtain ⟨hfds, _, hdisjoint⟩ := Multiset.nodup_add.mp hnodup
  refine (Multiset.Nodup.ext hfds (Finset.nodup _)).mpr fun fd => ?_
  have hmem : fd ∈ s.sockets ↔ fd ∈ fds ∨ fd ∈ dropped := by
    rw [← Finset.mem_val, ← h, Multiset.mem_add, Multiset.mem_coe]
  rw [Finset.mem_val, remaining, Finset.mem_sdiff, List.drop_left, List.mem_toFinset, hmem]
  constructor
  · intro hfd
    exact ⟨.inl hfd, fun hdropped => Multiset.disjoint_left.mp hdisjoint hfd hdropped⟩
  · rintro ⟨hfd | hfd, hnot⟩
    · exact hfd
    · exact (hnot hfd).elim

section Idle

variable {s : Server} {idle : IdleUsersRoom} {pc : IdlePc}

/-- The idle thread has moved clients without losing one. -/
theorem sockets_withIdle (h : s.heldFds = s.sockets.val)
    (hclosed : s.idle.closedSockets <+: idle.closedSockets)
    (hheld : idle.heldFds + idle.closedSockets = s.idle.heldFds + s.idle.closedSockets) :
    (s.withIdle pc idle).heldFds = (s.withIdle pc idle).sockets.val := by
  refine remaining_val hclosed ?_
  rw [heldFds_eq, ← h, heldFds_eq]
  change idle.heldFds + s.games.tokens _ + _ = _
  rw [add_right_comm, hheld, add_right_comm]

theorem Invariant.withIdle (h : s.Invariant) (hstored : idle.StoredUnderOwnFd)
    (hphase : ∀ roomId room,
        idle.gameRooms.get? roomId = some room → Phase (s.games.get? roomId) room)
    (hclosed : s.idle.closedSockets <+: idle.closedSockets)
    (hheld : idle.heldFds + idle.closedSockets = s.idle.heldFds + s.idle.closedSockets) :
    (s.withIdle pc idle).Invariant :=
  ⟨hstored, hphase, sockets_withIdle h.sockets hclosed hheld⟩

theorem Invariant.admits (h : s.Invariant) (hadmits : IdleUsersRoom.Admits 0 s.idle idle) :
    (s.withIdle pc idle).Invariant := by
  refine h.withIdle (hadmits.stored h.stored) (fun roomId room hroom => ?_) hadmits.closed ?_
  · rw [hadmits.gameRooms] at hroom
    exact h.phase roomId room hroom
  · rw [hadmits.heldFds, add_zero]

end Idle

variable {s s' : Server}

theorem Invariant.accept (h : s.Invariant) {clientFd : Int} (hnew : clientFd ∉ s.sockets) :
    ({ s with
      idle := { s.idle with newClientsQueue := s.idle.newClientsQueue.push clientFd }
      sockets := insert clientFd s.sockets } : Server).Invariant := by
  refine ⟨h.stored, h.phase, ?_⟩
  rw [Finset.insert_val_of_notMem hnew, ← h.sockets, heldFds_eq, heldFds_eq, IdleUsersRoom.heldFds,
    IdleUsersRoom.heldFds, EventfdQueue.data_push, ← Multiset.coe_add, ← Multiset.singleton_add,
    Multiset.coe_singleton]
  ac_rfl

theorem Invariant.addNewClient (h : s.Invariant) {clientFd : Int} {data : List Int}
    {idle : IdleUsersRoom} {pc : IdlePc}
    (hdata : s.idle.newClientsQueue.data = clientFd :: data)
    (hadmits : IdleUsersRoom.Admits {clientFd}
      { s.idle with newClientsQueue := { s.idle.newClientsQueue with data := data } } idle) :
    (s.withIdle pc idle).Invariant := by
  refine h.withIdle (hadmits.stored h.stored) (fun roomId room hroom => ?_) hadmits.closed ?_
  · rw [hadmits.gameRooms] at hroom
    exact h.phase roomId room hroom
  · have hqueue : ({ s.idle with newClientsQueue := { s.idle.newClientsQueue with data := data } } :
        IdleUsersRoom).heldFds + {clientFd} = s.idle.heldFds := by
      rw [IdleUsersRoom.heldFds, IdleUsersRoom.heldFds, hdata, ← Multiset.cons_coe,
        ← Multiset.singleton_add]
      ac_rfl
    rw [hadmits.heldFds, add_right_comm, hqueue]

private theorem playerFds_start {gameInput : EventfdQueue ProtocolClient}
    {gameOutput : EventfdQueue GameStateChange} {g : Game}
    (h : Game.start gameInput gameOutput = .ok g) : g.playerFds = 0 := by
  obtain ⟨epoll, rfl⟩ := Game.start_eq_ok h
  exact add_zero 0

/-- The room of a game that starts has been idle, so there is no other game. -/
theorem Invariant.startGame (h : s.Invariant) {client1 client2 roomId : Int} {room : GameRoom}
    {idle : IdleUsersRoom} {pc : IdlePc} {g : Game}
    (hroom : s.idle.gameRooms.get? roomId = some room) (hidle : room.gameState = .IDLE)
    (hnew : s.idle.newGameThread client1 client2 roomId = .ok idle)
    (hstart : Game.start room.gameInput room.gameOutput = .ok g) :
    ({ s.withIdle pc idle with games := s.games.set roomId { game := g } } : Server).Invariant := by
  obtain ⟨usernameA, usernameB, epoll, hidle'⟩ := IdleUsersRoom.newGameThread_eq_ok hnew
  obtain ⟨hnone, hempty⟩ := (h.phase roomId room hroom).of_idle hidle
  have hclosed : idle.closedSockets = s.idle.closedSockets := by rw [hidle']
  refine ⟨?_, ?_, ?_⟩
  · change idle.StoredUnderOwnFd
    rw [hidle']
    exact h.stored
  · change ∀ id room, idle.gameRooms.get? id = some room →
      Phase ((s.games.set roomId _).get? id) room
    rw [hidle']
    refine forall_rooms_modify (fun _ => Phase) h.phase
      (fun id hid => UnorderedMap.get?_set_of_ne _ _ hid) fun room' hroom' => ?_
    rw [hroom] at hroom'
    cases hroom'
    rw [UnorderedMap.get?_set_self]
    exact .running (k := 0) (fun heq => nomatch heq) hempty
  · have hsockets : (s.withIdle pc idle).heldFds = (s.withIdle pc idle).sockets.val :=
      sockets_withIdle h.sockets (by rw [hclosed])
        (by rw [IdleUsersRoom.heldFds_newGameThread hnew, hclosed])
    have hgames := s.games.tokens_set (·.game.playerFds) roomId { game := g }
    rw [hnone, playerFds_start hstart, Option.elim, add_zero, add_zero] at hgames
    rw [← hsockets, heldFds_eq, heldFds_eq]
    exact congrArg _ hgames

/-- A client goes from the idle room to the input of a game. -/
theorem Invariant.sendClient (h : s.Invariant) {roomId client : Int} {idle : IdleUsersRoom}
    {pc : IdlePc} (hsend : s.idle.sendClientToGameThread roomId client = .ok idle) :
    (s.withIdle pc idle).Invariant := by
  have hheld := IdleUsersRoom.heldFds_sendClientToGameThread h.stored hsend
  obtain ⟨moved, room, _, _, _, rfl⟩ := IdleUsersRoom.sendClientToGameThread_eq_ok h.stored hsend
  refine h.withIdle (IdleUsersRoom.storedUnderOwnFd_erase h.stored client rfl) ?_ List.prefix_rfl
    (congrArg (· + _) hheld)
  exact forall_rooms_modify (fun _ => Phase) h.phase (fun _ _ => rfl) fun room' hroom' =>
    (h.phase roomId room' hroom').congr rfl rfl

/-- A change that is applied is a pause, or the end of a game that the idle room
did not know of. -/
theorem Invariant.applied (h : s.Invariant) {roomId : Int} {room : GameRoom}
    {change : GameStateChange} {data : List GameStateChange} {idle : IdleUsersRoom}
    (hroom : s.idle.gameRooms.get? roomId = some room) (hdata : room.gameOutput.data = change :: data)
    (happly : (s.idle.modifyRoom roomId
      (GameRoom.withOutput { room.gameOutput with data := data })).applyStateChange roomId change =
        .ok idle) :
    (change = { newState := .PAUSED } ∧
      idle = (s.idle.modifyRoom roomId
        (GameRoom.withOutput { room.gameOutput with data := data })).setGameAsPaused roomId ∧
      ∀ room' : GameRoom, room'.gameState ≠ .IDLE → room'.gameOutput.data = data →
        Phase (s.games.get? roomId) room') ∨
    (change.newState = .IDLE ∧ s.games.get? roomId = none ∧ data = [] ∧ ∃ back,
      IdleUsersRoom.Admits change.clientFds (s.idle.modifyRoom roomId
        (GameRoom.withOutput { room.gameOutput with data := data })) back ∧
      idle = back.setGameAsIdle roomId) := by
  have hcases := IdleUsersRoom.applyStateChange_eq_ok happly
  rcases (h.phase roomId room hroom).pop hdata with ⟨hchange, hphase⟩ | ⟨hchange, hnone, hlast⟩
  · rw [hchange] at hcases
    rcases hcases with ⟨hidle, _⟩ | ⟨hrunning, _⟩ | ⟨_, hpaused⟩
    · cases hidle
    · cases hrunning
    · exact .inl ⟨hchange, hpaused, hphase⟩
  · rw [hchange] at hcases
    rcases hcases with ⟨_, hback⟩ | ⟨hrunning, _⟩ | ⟨hpaused, _⟩
    · exact .inr ⟨hchange, hnone, hlast, hback⟩
    · cases hrunning
    · cases hpaused

theorem Invariant.applyStateChange (h : s.Invariant) {roomId : Int} {room : GameRoom}
    {change : GameStateChange} {data : List GameStateChange} {idle : IdleUsersRoom} {pc : IdlePc}
    (hroom : s.idle.gameRooms.get? roomId = some room) (hdata : room.gameOutput.data = change :: data)
    (happly : (s.idle.modifyRoom roomId
      (GameRoom.withOutput { room.gameOutput with data := data })).applyStateChange roomId change =
        .ok idle) : (s.withIdle pc idle).Invariant := by
  have hheld := IdleUsersRoom.heldFds_popOutput hroom hdata
  rcases h.applied hroom hdata happly with
    ⟨hchange, rfl, hphase⟩ | ⟨_, hnone, hlast, back, hadmits, rfl⟩
  · have hnoFds : change.clientFds = 0 := by
      rw [hchange]
      exact add_zero 0
    rw [hnoFds, add_zero] at hheld
    refine h.withIdle h.stored ?_ List.prefix_rfl (congrArg (· + _) ?_)
    · rw [IdleUsersRoom.setGameAsPaused, IdleUsersRoom.modifyRoom, IdleUsersRoom.modifyRoom,
        UnorderedMap.modify_modify]
      exact forall_rooms_modify (fun _ => Phase) h.phase (fun _ _ => rfl) fun _ _ =>
        hphase _ GameState.noConfusion rfl
    · rw [IdleUsersRoom.heldFds_setGameAsPaused, hheld]
  · refine h.withIdle (hadmits.stored h.stored) ?_ hadmits.closed ?_
    · rw [IdleUsersRoom.gameRooms_setGameAsIdle hadmits]
      refine forall_rooms_modify (fun _ => Phase) h.phase (fun _ _ => rfl) fun _ _ => ?_
      rw [hnone]
      exact .idle rfl hlast
    · rw [IdleUsersRoom.heldFds_setGameAsIdle]
      refine hadmits.heldFds.trans ?_
      rw [add_right_comm, hheld]
      rfl

/-- The games of the other rooms when the thread of one has gone on. -/
theorem games_of_ne {roomId id : Int} {t' : GameThread}
    (hgames : s'.games = if t'.pc = .finished then s.games.erase roomId else s.games.set roomId t')
    (hid : id ≠ roomId) : s'.games.get? id = s.games.get? id := by
  rw [hgames]
  split
  · exact UnorderedMap.get?_erase_of_ne _ hid
  · exact UnorderedMap.get?_set_of_ne _ _ hid

/-- The players of all games after one of the threads has gone on. -/
theorem tokens_withThread {roomId : Int} {stored t t' : GameThread}
    (hstored : s.games.get? roomId = some stored)
    (hfinished : t'.pc = .finished → t'.game.playerFds = 0) :
    (s.withThread roomId t t').games.tokens (·.game.playerFds) + stored.game.playerFds =
      s.games.tokens (·.game.playerFds) + t'.game.playerFds := by
  rw [withThread]
  split
  · rename_i hpc
    have herase := s.games.tokens_erase (·.game.playerFds) roomId
    rw [hstored, Option.elim] at herase
    rw [herase, hfinished hpc, add_zero]
  · have hset := s.games.tokens_set (·.game.playerFds) roomId t'
    rwa [hstored, Option.elim] at hset

private theorem phase_withThread {roomId : Int} {stored t' : GameThread} {room : GameRoom}
    (h : Phase (s.games.get? roomId) room) (hstored : s.games.get? roomId = some stored)
    (hhandover : Handover (stored.withQueues room) t') :
    Phase ((s.withThread roomId (stored.withQueues room) t').games.get? roomId)
      (room.withQueuesOf t') := by
  rw [hstored] at h
  cases h with
  | @running _ _ k hbusy hpauses =>
    rw [withThread]
    rcases hhandover.output with ⟨hpc, k', houtput⟩ | ⟨_, rfl⟩
    · rw [if_neg hpc, UnorderedMap.get?_set_self]
      refine .running (k := k + k') hbusy ?_
      change t'.game.gameOutput.data = _
      rw [houtput, ← List.replicate_append_replicate, ← hpauses]
      rfl
    · rw [if_pos rfl, UnorderedMap.get?_erase_self]
      exact .ended hbusy (congrArg (· ++ _) hpauses)

/-- A thread that is finished has no players any more. -/
theorem playerFds_of_finished {t t' : GameThread} (h : Handover t t') (hpc : t'.pc = .finished) :
    t'.game.playerFds = 0 := by
  rcases h.output with ⟨hne, _⟩ | ⟨_, rfl⟩
  · exact (hne hpc).elim
  · exact add_zero 0

/-- The descriptors of the idle room after one of the threads has gone on. -/
theorem idle_heldFds_withThread {roomId : Int} {room : GameRoom} (t t' : GameThread)
    (hroom : s.idle.gameRooms.get? roomId = some room) :
    (s.withThread roomId t t').idle.heldFds + room.heldFds =
      s.idle.heldFds + (room.withQueuesOf t').heldFds := by
  have hrooms : (s.withThread roomId t t').idle.gameRooms.tokens (·.heldFds) + room.heldFds =
      s.idle.gameRooms.tokens (·.heldFds) + (room.withQueuesOf t').heldFds :=
    UnorderedMap.tokens_modify_add hroom (add_comm _ _)
  have hadd : (s.withThread roomId t t').idle.heldFds + (0 + room.heldFds) =
      s.idle.heldFds + (0 + _) :=
    IdleUsersRoom.heldFds_add rfl rfl hrooms
  rwa [zero_add, zero_add] at hadd

/-- Two exchanges, `q` for `q'` and `p` for `p'`, that make up for what is given
away in all. -/
private theorem add_of_exchanges {a a' b b' c c' p p' q q' : Multiset Int} (ha : a' + q = a + q')
    (hb : b' + p = b + p') (hc : p + q + c = p' + q' + c') : a' + b' + c' = a + b + c := by
  apply add_right_cancel (b := p + q)
  calc a' + b' + c' + (p + q) = (a' + q) + (b' + p) + c' := by ac_rfl
    _ = a + b + (p' + q' + c') := by rw [ha, hb]; ac_rfl
    _ = a + b + c + (p + q) := by rw [← hc]; ac_rfl

theorem Invariant.game (h : s.Invariant) {roomId : Int} {action : GameAction} {room : GameRoom}
    {stored t' : GameThread} (hown : action.isOwn = true)
    (hroom : s.idle.gameRooms.get? roomId = some room) (hstored : s.games.get? roomId = some stored)
    (hgo : (stored.withQueues room).step action = some t') :
    (s.withThread roomId (stored.withQueues room) t').Invariant := by
  have hhandover := GameThread.handover_step hown hgo
  refine ⟨h.stored, ?_, remaining_val hhandover.closed ?_⟩
  · refine forall_rooms_modify (fun _ => Phase) h.phase (fun _ hid => games_of_ne rfl hid)
      fun room' hroom' => ?_
    rw [hroom] at hroom'
    cases hroom'
    exact phase_withThread (h.phase roomId room hroom) hstored hhandover
  · have hidle := idle_heldFds_withThread (stored.withQueues room) t' hroom
    have hgames :=
      tokens_withThread (t := stored.withQueues room) hstored (playerFds_of_finished hhandover)
    have hsockets : stored.game.playerFds + room.heldFds +
        (stored.game.closedSockets : Multiset Int) =
        t'.game.playerFds + (room.withQueuesOf t').heldFds +
          (t'.game.closedSockets : Multiset Int) := by
      have heq := hhandover.sockets
      rw [Game.heldFds, Game.heldFds, add_assoc _ _ (outputFds _),
        add_assoc _ _ (outputFds _)] at heq
      exact heq.symm
    rw [← h.sockets, heldFds_eq, heldFds_eq]
    exact add_of_exchanges hidle hgames hsockets

/-- Every step of the server keeps the invariant. -/
theorem Invariant.step (h : s.Invariant) {action : ServerAction} (hstep : s.step action = some s') :
    s'.Invariant := by
  cases effect_of_step h.stored hstep with
  | accept hnew heq => exact heq ▸ h.accept hnew
  | handlerDone _ heq => exact heq ▸ ⟨h.stored, h.phase, h.sockets⟩
  | newClientEvent heq => exact heq ▸ h.withIdle h.stored h.phase List.prefix_rfl rfl
  | addNewClient hdata hadmits heq => exact heq ▸ h.addNewClient hdata hadmits
  | receive hreceive heq => exact heq ▸ h.admits (IdleUsersRoom.admits_receiveMessages hreceive)
  | answer _ _ hanswer heq => exact heq ▸ h.admits (IdleUsersRoom.admits_answer hanswer)
  | disconnect heq => exact heq ▸ h.admits (IdleUsersRoom.admits_onClientDisconnect s.idle _)
  | startGame _ _ _ hroom hidle hnew hstart heq => exact heq ▸ h.startGame hroom hidle hnew hstart
  | sendClient _ hsend heq => exact heq ▸ h.sendClient hsend
  | stateChangeEvent heq =>
    rw [heq]
    refine h.withIdle h.stored ?_ List.prefix_rfl (congrArg (· + _) ?_)
    · exact forall_rooms_modify (fun _ => Phase) h.phase (fun _ _ => rfl) fun room hroom =>
        (h.phase _ room hroom).congr rfl rfl
    · exact IdleUsersRoom.heldFds_of_rooms rfl rfl
        (UnorderedMap.tokens_modify_of_eq _ _ _ fun _ _ => rfl)
  | applyStateChange hroom hdata happly heq => exact heq ▸ h.applyStateChange hroom hdata happly
  | game hown hroom hstored hgo heq => exact heq ▸ h.game hown hroom hstored hgo

/-- Every room begins with its number and its queues, and with nothing else. -/
theorem room_of_createRooms {inputEvfd outputEvfd : Nat → Int} {roomCount : Nat} {roomId : Int}
    {room : GameRoom}
    (h : (IdleUsersRoom.createRooms inputEvfd outputEvfd roomCount).get? roomId = some room) :
    ∃ i : Nat, roomId = (i + 1 : Nat) ∧ room =
      { roomId := i + 1, gameInput := { evfd := inputEvfd (i + 1) },
        gameOutput := { evfd := outputEvfd (i + 1) } } := by
  induction roomCount with
  | zero => cases h
  | succ n ih =>
    rw [IdleUsersRoom.createRooms, List.range_succ, List.foldl_append, List.foldl_cons,
      List.foldl_nil, UnorderedMap.get?_set] at h
    split at h
    · rename_i heq
      exact ⟨n, heq, (Option.some.inj h).symm⟩
    · exact ih h

/-- Rooms begin idle and with empty queues. -/
theorem get?_createRooms {inputEvfd outputEvfd : Nat → Int} {roomCount : Nat} {roomId : Int}
    {room : GameRoom}
    (h : (IdleUsersRoom.createRooms inputEvfd outputEvfd roomCount).get? roomId = some room) :
    room.gameState = .IDLE ∧ room.gameInput.data = [] ∧ room.gameOutput.data = [] := by
  obtain ⟨i, _, rfl⟩ := room_of_createRooms h
  exact ⟨rfl, rfl, rfl⟩

theorem invariant_init (h : system.init s) : s.Invariant := by
  obtain ⟨newClientsEvfd, inputEvfd, outputEvfd, roomCount, maxPlayerCount, _, hstart, _, hgames,
    hsockets⟩ := h
  obtain ⟨epoll, _, hidle⟩ := bind_eq_ok.mp hstart
  obtain ⟨idle, pc, games, sockets⟩ := s
  obtain rfl : games = ∅ := hgames
  obtain rfl : sockets = ∅ := hsockets
  cases hidle
  refine ⟨fun _ _ hclient => (nomatch hclient), fun roomId room hroom => ?_, ?_⟩
  · obtain ⟨hstate, _, houtput⟩ := get?_createRooms hroom
    exact .idle hstate houtput
  · have hrooms : (IdleUsersRoom.createRooms inputEvfd outputEvfd roomCount).tokens (·.heldFds) =
        0 :=
      UnorderedMap.tokens_eq_zero fun roomId room hroom => by
        obtain ⟨_, hinput, houtput⟩ := get?_createRooms hroom
        rw [GameRoom.heldFds, inputFds, outputFds, hinput, houtput]
        rfl
    rw [heldFds_eq, IdleUsersRoom.heldFds, hrooms]
    rfl

/-- The invariant holds at all times. -/
theorem invariant_of_reachable (h : system.Reachable s) : s.Invariant :=
  h.invariant (fun _ => invariant_init) fun _ _ _ _ hinv hstep => hinv.step hstep

end Server

end UpsServer
