import UpsServer.GameRoom.PauseReport
import UpsServer.GameServer.UniqueNames

namespace UpsServer

/-- How many clients are still to be sent to the game of a room. -/
def IdlePc.toCome (roomId : Int) : IdlePc → Nat
  | .sending id clients _ _ => if id = roomId then clients.length else 0
  | _ => 0

/-- What the idle room has recorded of a room and its game is so: whether there
is a game, whether it is paused, and who plays. -/
structure RoomAgrees (game : Option GameThread) (room : GameRoom) : Prop where
  idle : room.gameState = .IDLE ↔ game = none
  paused : room.gameState = .PAUSED ↔ ∃ t, game = some t ∧ t.game.isPaused = true
  users : ∀ t, game = some t → ∀ ref client, (t.game.player ref).client = some client →
    room.hasUsername client.clientName = true

/-- The pauses of the game of a room are known. -/
def RoomKnown (toCome : Nat) (game : Option GameThread) (room : GameRoom) : Prop :=
  ∀ stored, game = some stored →
    (stored.withQueues room).game.PauseKnown room.gameState toCome

theorem RoomKnown.mono {toCome toCome' : Nat} {game : Option GameThread} {room : GameRoom}
    (h : RoomKnown toCome game room) (hle : toCome' ≤ toCome) : RoomKnown toCome' game room :=
  fun stored hstored => (h stored hstored).mono hle

namespace Server

open IdleUsersRoom

/-- Both queues of a room are empty, and neither the idle thread nor the thread
of its game is in a handler. -/
structure Quiescent (s : Server) (roomId : Int) (room : GameRoom) : Prop where
  idle : s.pc = .waiting
  game : ∀ t, s.games.get? roomId = some t → t.pc = .waiting ∨ t.pc = .stopping
  input : room.gameInput.data = []
  output : room.gameOutput.data = []

/-- The idle thread and the game threads agree on every room that is quiescent. -/
def RoomsAgree (s : Server) : Prop :=
  ∀ roomId room, s.idle.gameRooms.get? roomId = some room → s.Quiescent roomId room →
    RoomAgrees (s.games.get? roomId) room

/-- The pauses of all games are known. -/
def PausesKnown (s : Server) : Prop :=
  ∀ roomId room, s.idle.gameRooms.get? roomId = some room →
    RoomKnown (s.pc.toCome roomId) (s.games.get? roomId) room

variable {s s' : Server} {action : ServerAction}

theorem toCome_afterSend (roomId id : Int) (clients : List Int) (clientFd : Int)
    (messages : List ProtocolData) :
    (afterSend roomId clients clientFd messages).toCome id =
      if roomId = id then clients.length else 0 := by
  unfold afterSend
  split
  · rename_i hnone
    rw [hnone, List.length_nil, ite_self]
    rfl
  · rfl

/-- The rooms and games are the same, and no more clients are to come. -/
theorem PausesKnown.of_same (h : s.PausesKnown) (hrooms : s'.idle.gameRooms = s.idle.gameRooms)
    (hgames : s'.games = s.games) (hpc : ∀ roomId, s'.pc.toCome roomId ≤ s.pc.toCome roomId) :
    s'.PausesKnown := by
  intro roomId room hroom
  rw [hrooms] at hroom
  rw [hgames]
  exact (h roomId room hroom).mono (hpc roomId)

/-- One room and its game have changed. -/
theorem PausesKnown.of_room (h : s.PausesKnown) {roomId : Int} {f : GameRoom → GameRoom}
    (hrooms : s'.idle.gameRooms = s.idle.gameRooms.modify roomId f)
    (hgames : ∀ id, id ≠ roomId → s'.games.get? id = s.games.get? id)
    (hpc : ∀ id, id ≠ roomId → s'.pc.toCome id ≤ s.pc.toCome id)
    (hknown : ∀ room, s.idle.gameRooms.get? roomId = some room →
      RoomKnown (s'.pc.toCome roomId) (s'.games.get? roomId) (f room)) : s'.PausesKnown := by
  intro id room' hroom'
  rw [hrooms] at hroom'
  by_cases hid : id = roomId
  · subst hid
    rw [UnorderedMap.get?_modify_self] at hroom'
    obtain ⟨room, hroom, rfl⟩ := Option.map_eq_some_iff.mp hroom'
    exact hknown room hroom
  · rw [UnorderedMap.get?_modify_of_ne _ _ hid] at hroom'
    rw [hgames id hid]
    exact (h id room' hroom').mono (hpc id hid)

/-- A game starts in a room whose queues are empty. -/
theorem PausesKnown.startGame (h : s.PausesKnown) (hinvariant : s.Invariant) (hnames : s.NamesOk)
    {clientFd client2 roomId : Int} {messages : List ProtocolData} {room : GameRoom}
    {idle : IdleUsersRoom} {g : Game}
    (hroom : s.idle.gameRooms.get? roomId = some room) (hidle : room.gameState = .IDLE)
    (hnew : s.idle.newGameThread clientFd client2 roomId = .ok idle)
    (hstart : Game.start room.gameInput room.gameOutput = .ok g) :
    ({ s.withIdle (.sending roomId [clientFd, client2] clientFd messages) idle with
      games := s.games.set roomId { game := g } } : Server).PausesKnown := by
  obtain ⟨usernameA, usernameB, epoll, rfl⟩ := newGameThread_eq_ok hnew
  refine h.of_room rfl (fun id hid => UnorderedMap.get?_set_of_ne _ _ hid) (fun id hid => ?_) ?_
  · rw [withIdle, IdlePc.toCome, if_neg (Ne.symm hid)]
    exact Nat.zero_le _
  · intro room' hroom' stored hstored
    cases hroom.symm.trans hroom'
    rw [UnorderedMap.get?_set_self] at hstored
    cases hstored
    rw [withIdle, IdlePc.toCome, if_pos rfl]
    have hknown := Game.pauseKnown_start ((hnames.rooms roomId room hroom).idleInput hidle)
      ((hinvariant.phase roomId room hroom).of_idle hidle).2 hstart
    obtain ⟨gameEpoll, rfl⟩ := Game.start_eq_ok hstart
    exact hknown

/-- A client who is sent to a game is in its input instead of on his way. -/
theorem PausesKnown.sendClient (h : s.PausesKnown) (hinvariant : s.Invariant)
    {roomId clientFd fd : Int} {clients : List Int} {messages : List ProtocolData}
    {idle : IdleUsersRoom} (hpc : s.pc = .sending roomId (fd :: clients) clientFd messages)
    (hsend : s.idle.sendClientToGameThread roomId fd = .ok idle) :
    (s.withIdle (afterSend roomId clients clientFd messages) idle).PausesKnown := by
  obtain ⟨moved, room, _, _, hroom, rfl⟩ := sendClientToGameThread_eq_ok hinvariant.stored hsend
  refine h.of_room rfl (fun _ _ => rfl) (fun id hid => ?_) ?_
  · change (afterSend roomId clients clientFd messages).toCome id ≤ _
    rw [toCome_afterSend, if_neg (Ne.symm hid)]
    exact Nat.zero_le _
  · intro room' hroom' stored hstored
    cases hroom.symm.trans hroom'
    have hknown := h roomId room hroom stored hstored
    rw [hpc, IdlePc.toCome, if_pos rfl, List.length_cons] at hknown
    change Game.PauseKnown _ ((afterSend roomId clients clientFd messages).toCome roomId) _
    rw [toCome_afterSend, if_pos rfl]
    exact hknown.sent moved

/-- A pause that is popped becomes the state of the room. The end of a game has
no game to know of. -/
theorem PausesKnown.applyStateChange (h : s.PausesKnown) (hinvariant : s.Invariant) {roomId : Int}
    {room : GameRoom} {change : GameStateChange} {data : List GameStateChange}
    {idle : IdleUsersRoom} (hroom : s.idle.gameRooms.get? roomId = some room)
    (hdata : room.gameOutput.data = change :: data)
    (happly : (s.idle.modifyRoom roomId
      (GameRoom.withOutput { room.gameOutput with data := data })).applyStateChange roomId change =
        .ok idle) : (s.withIdle (.changing roomId) idle).PausesKnown := by
  rcases hinvariant.applied hroom hdata happly with ⟨_, rfl, _⟩ | ⟨_, hnone, _, back, hadmits, rfl⟩
  · refine h.of_room (UnorderedMap.modify_modify _ _ _ _) (fun _ _ => rfl)
      (fun _ _ => Nat.zero_le _) fun room' hroom' stored hstored => ?_
    cases hroom.symm.trans hroom'
    have hreported : (stored.withQueues room).game.gameOutput.data ≠ [] :=
      hdata ▸ List.cons_ne_nil _ _
    exact ((h roomId room hroom stored hstored).reported hreported _).mono (Nat.zero_le _)
  · refine h.of_room (gameRooms_setGameAsIdle hadmits) (fun _ _ => rfl) (fun _ _ => Nat.zero_le _)
      fun _ _ stored hstored => ?_
    rw [withIdle, hnone] at hstored
    cases hstored

/-- A game thread goes on. -/
theorem PausesKnown.game (h : s.PausesKnown) {roomId : Int} {action : GameAction} {room : GameRoom}
    {stored t' : GameThread} (hown : action.isOwn = true)
    (hroom : s.idle.gameRooms.get? roomId = some room) (hstored : s.games.get? roomId = some stored)
    (hgo : (stored.withQueues room).step action = some t') :
    (s.withThread roomId (stored.withQueues room) t').PausesKnown := by
  refine h.of_room rfl (fun _ hid => games_of_ne rfl hid) (fun _ _ => le_rfl)
    fun room' hroom' stored' hstored' => ?_
  cases hroom.symm.trans hroom'
  rw [withThread] at hstored'
  split at hstored'
  · rw [UnorderedMap.get?_erase_self] at hstored'
    cases hstored'
  · rename_i hpc
    rw [UnorderedMap.get?_set_self] at hstored'
    cases hstored'
    refine GameThread.pauseKnown_step (h roomId room hroom stored hstored) hown ?_ hgo
    rintro rfl
    obtain ⟨_, hdestroyed⟩ := Option.ite_none_right_eq_some.mp hgo
    cases hdestroyed
    exact hpc rfl

/-- Every step keeps the pauses known, as long as games start with nobody in
their input. -/
theorem PausesKnown.step (h : s.PausesKnown) (hinvariant : s.Invariant) (hnames : s.NamesOk)
    (hstep : s.step action = some s') : s'.PausesKnown := by
  have hnobody : ∀ roomId, 0 ≤ s.pc.toCome roomId := fun _ => Nat.zero_le _
  cases effect_of_step hinvariant.stored hstep with
  | accept _ heq =>
    subst heq
    exact h
  | handlerDone _ heq | newClientEvent heq =>
    subst heq
    exact h.of_same rfl rfl hnobody
  | addNewClient _ hadmits heq =>
    subst heq
    exact h.of_same hadmits.gameRooms rfl hnobody
  | receive hreceive heq =>
    subst heq
    exact h.of_same (admits_receiveMessages hreceive).gameRooms rfl hnobody
  | answer _ _ hanswer heq =>
    subst heq
    exact h.of_same (admits_answer hanswer).gameRooms rfl hnobody
  | disconnect heq =>
    subst heq
    exact h.of_same (admits_onClientDisconnect s.idle _).gameRooms rfl hnobody
  | startGame _ _ _ hroom hidle hnew hstart heq =>
    subst heq
    exact h.startGame hinvariant hnames hroom hidle hnew hstart
  | sendClient hpc hsend heq =>
    subst heq
    exact h.sendClient hinvariant hpc hsend
  | @stateChangeEvent roomId heq =>
    subst heq
    refine h.of_room rfl (fun _ _ => rfl) (fun id _ => hnobody id)
      fun room hroom stored hstored => ?_
    exact ((h roomId room hroom stored hstored).mono (hnobody roomId)).readOutput
  | applyStateChange hroom hdata happly heq =>
    subst heq
    exact h.applyStateChange hinvariant hroom hdata happly
  | game hown hroom hstored hgo heq =>
    subst heq
    exact h.game hown hroom hstored hgo

theorem pausesKnown_of_reachable (h : (system.restrict LeavesNobody).Reachable s) :
    s.PausesKnown := by
  refine h.invariant (P := PausesKnown) (fun s hinit => ?_) fun s action s' hreach hknown hstep => ?_
  · intro roomId room _ stored hstored
    obtain ⟨_, _, _, _, _, _, _, _, hgames, _⟩ := hinit
    rw [hgames] at hstored
    cases hstored
  · exact hknown.step (invariant_of_reachable hreach.of_restrict) (namesOk_of_reachable hreach)
      hstep.1

theorem roomsAgree_of_reachable (h : (system.restrict LeavesNobody).Reachable s) :
    s.RoomsAgree := by
  intro roomId room hroom hquiescent
  have hphase := (invariant_of_reachable h.of_restrict).phase roomId room hroom
  have hknown := pausesKnown_of_reachable h roomId room hroom
  have hrecorded := ((namesOk_of_reachable h).rooms roomId room hroom).recorded
  cases hgame : s.games.get? roomId with
  | none =>
    rw [hgame] at hphase
    cases hphase with
    | idle hidle =>
      have hunpaused : room.gameState ≠ .PAUSED := by
        rw [hidle]
        exact GameState.noConfusion
      refine ⟨iff_of_true hidle rfl, iff_of_false hunpaused ?_, fun _ ht => (nomatch ht)⟩
      rintro ⟨_, hnone, _⟩
      cases hnone
    | ended _ hend =>
      rw [hquiescent.output] at hend
      exact (List.append_ne_nil_of_right_ne_nil _ (List.cons_ne_nil _ _) hend.symm).elim
  | some stored =>
    have hbusy : room.gameState ≠ .IDLE := by
      intro hidle
      rw [(hphase.of_idle hidle).1] at hgame
      cases hgame
    have hnoted : stored.game.isPaused = true ↔
        room.gameState = .PAUSED ∨ room.gameOutput.data ≠ [] := (hknown stored hgame).noted
    refine ⟨iff_of_false hbusy (Option.some_ne_none stored), ?_, ?_⟩
    · constructor
      · intro hpaused
        exact ⟨stored, rfl, hnoted.mpr (.inl hpaused)⟩
      · rintro ⟨t, ht, hpaused⟩
        cases ht
        exact (hnoted.mp hpaused).resolve_right fun hreport => hreport hquiescent.output
    · intro t ht ref client hclient
      cases ht
      refine hrecorded client.identity ?_
      rw [hgame]
      exact .inl ⟨ref, client, hclient, rfl⟩

/-- In a run that never ends a game with a client left in its input the idle
thread and the game threads agree on every room that is quiescent. -/
theorem roomsAgree_of_run {steps : List (Server × ServerAction × Server)} (h : system.Run steps s)
    (hleaves : ∀ t ∈ steps, t.1.LeavesNobody t.2.1) :
    s.RoomsAgree ∧ ∀ t ∈ steps, t.1.RoomsAgree :=
  h.forall_of_restrict hleaves fun _ hreach => roomsAgree_of_reachable hreach

/-- No thread is in the middle of a handler, and the queues of the room are empty. -/
def isQuiescent (s : Server) (room : GameRoom) : Bool :=
  decide (s.pc = .waiting) && (s.games.get? 1).all (fun t => decide (t.pc = .waiting)) &&
    decide (room.gameInput.data = []) && decide (room.gameOutput.data = [])

private theorem quiescent_of_isQuiescent {room : GameRoom} (h : s.isQuiescent room = true) :
    s.Quiescent 1 room := by
  simp only [isQuiescent, Bool.and_eq_true, Option.all_eq_true, decide_eq_true_eq] at h
  obtain ⟨⟨⟨hpc, hgame⟩, hinput⟩, houtput⟩ := h
  exact ⟨hpc, fun t ht => .inl (hgame t ht), hinput, houtput⟩

/-- The room of the run is quiescent in the given state. -/
def isQuiescentIn (s : Server) (gameState : GameState) : Bool :=
  (s.idle.gameRooms.get? 1).any fun room => decide (room.gameState = gameState) && s.isQuiescent room

private theorem exists_room_of_isQuiescentIn {gameState : GameState} (h : s.isQuiescentIn gameState = true) :
    ∃ room, s.idle.gameRooms.get? 1 = some room ∧ s.Quiescent 1 room ∧
      room.gameState = gameState := by
  obtain ⟨room, hroom, h⟩ := (Option.any_eq_true ..).mp h
  rw [Bool.and_eq_true, decide_eq_true_eq] at h
  exact ⟨room, hroom, quiescent_of_isQuiescent h.2, h.1⟩

private theorem exists_run_played : ∃ steps s, system.Run steps s ∧ (∀ t ∈ steps, t.1.LeavesNobody t.2.1) ∧
    (∃ t ∈ steps, t.1.isQuiescentIn .PAUSED = true) ∧ s.isQuiescentIn .IDLE = true := by
  obtain ⟨steps, s, hrun, hleaves, hstate⟩ := @exists_run_of_inputsEmpty playGameOfTwo
    (fun trace => (trace.1.any fun t => t.1.isQuiescentIn .PAUSED) && trace.2.isQuiescentIn .IDLE)
    (by decide +kernel)
  rw [Bool.and_eq_true, List.any_eq_true] at hstate
  exact ⟨steps, s, hrun, hleaves, hstate.1, hstate.2⟩

/-- The game of two is paused and ends, and each time the idle room is told. -/
theorem roomsAgree_of_run_played : ∃ steps s, system.Run steps s ∧
    (∃ t ∈ steps, ∃ room, t.1.idle.gameRooms.get? 1 = some room ∧ t.1.Quiescent 1 room ∧
      room.gameState = .PAUSED) ∧
    (∃ room, s.idle.gameRooms.get? 1 = some room ∧ s.Quiescent 1 room ∧ room.gameState = .IDLE) ∧
      s.RoomsAgree ∧ ∀ t ∈ steps, t.1.RoomsAgree := by
  obtain ⟨steps, s, hrun, hleaves, ⟨t, ht, hpaused⟩, hidle⟩ := exists_run_played
  exact ⟨steps, s, hrun, ⟨t, ht, exists_room_of_isQuiescentIn hpaused⟩,
    exists_room_of_isQuiescentIn hidle, roomsAgree_of_run hrun hleaves⟩

/-- The client who was left in the input plays in the next game of the room: it
is paused before both of its own players have come, and the pause is reported
when it is over. -/
def pauseLate : List ServerAction :=
  leaveEarly ++ .readDone :: hearOfGame ++
    connectClient 12 ++ sendMessage 12 ["ENTER_USERNAME", "username:C"] ++
    sendMessage 11 ["JOIN_GAME", "game_id:1"] ++
    [.receive 12 (some (messageText ["JOIN_GAME", "game_id:1"])), .message, .sendClient,
      .game 1 .newClientEvent, .game 1 (.takeNewClient 1000 1000),
      .game 1 (.takeNewClient 1000 1000), .game 1 .collected, .game 1 (.disconnect 12 EPOLLRDHUP),
      .sendClient, .game 1 .newClientEvent, .game 1 (.takeNewClient 1000 1000), .game 1 .collected,
      .readDone] ++ hearOfGame

theorem not_roomsAgree_pauseLate : ¬ ∀ s, system.Reachable s → s.RoomsAgree := by
  have hcheck : ((oneRoom.bind (TransitionSystem.runActions step pauseLate)).any fun s =>
      decide (s.pc = .waiting) &&
        (s.games.get? 1).any (fun t => decide (t.pc = .waiting) && !t.game.isPaused) &&
        (s.idle.gameRooms.get? 1).any fun room =>
          decide (room.gameInput.data = []) && decide (room.gameOutput.data = []) &&
            decide (room.gameState = .PAUSED)) = true := by
    decide +kernel
  obtain ⟨s, hreachable, hstate⟩ := exists_of_oneRoom hcheck
  simp only [Bool.and_eq_true, Option.any_eq_true, decide_eq_true_eq, Bool.not_eq_true'] at hstate
  obtain ⟨⟨hpc, t, ht, hwaiting, hplaying⟩, room, hroom, ⟨hinput, houtput⟩, hpaused⟩ := hstate
  intro hall
  have hquiescent : s.Quiescent 1 room := by
    refine ⟨hpc, fun t' ht' => .inl ?_, hinput, houtput⟩
    cases ht.symm.trans ht'
    exact hwaiting
  obtain ⟨t', ht', hpaused'⟩ := (hall s hreachable 1 room hroom hquiescent).paused.mp hpaused
  cases ht.symm.trans ht'
  rw [hplaying] at hpaused'
  cases hpaused'

end Server

end UpsServer
