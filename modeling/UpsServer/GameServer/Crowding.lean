import Mathlib.Algebra.Order.BigOperators.Group.Finset
import UpsServer.GameRoom.Crowd
import UpsServer.GameServer.Agreement
import UpsServer.GameServer.Closings
import UpsServer.GameServer.Ownership
import UpsServer.GameServer.PlayerLimit

namespace UpsServer

namespace GameThread

variable {toCome : Nat} {t : GameThread}

/-- The idle thread works on the queues of a game. -/
theorem CrowdOk.withQueues (h : t.CrowdOk toCome) {room : GameRoom} {toCome' : Nat}
    (hevfd : room.gameInput.evfd = t.game.gameInput.evfd)
    (hlength : room.gameInput.data.length + toCome' ≤ t.game.gameInput.data.length + toCome) :
    (t.withQueues room).CrowdOk toCome' := by
  cases h with
  | untouched hpc huntouched hinput =>
    exact .untouched hpc (huntouched.withQueues _ _ hevfd) (hlength.trans hinput)
  | first hpc hfree hinput => exact .first hpc hfree (hlength.trans hinput)
  | rest hinput => exact .rest (hlength.trans hinput)

end GameThread

/-- What is known of the clients at a room to which some more are to come. -/
def RoomCrowdOk (toCome : Nat) (game : Option GameThread) (room : GameRoom) : Prop :=
  game.elim (room.gameInput.data.length + toCome ≤ 2) fun stored =>
    (stored.withQueues room).CrowdOk toCome

theorem RoomCrowdOk.mono {toCome toCome' : Nat} {game : Option GameThread} {room : GameRoom}
    (h : RoomCrowdOk toCome game room) (hle : toCome' ≤ toCome) :
    RoomCrowdOk toCome' game room := by
  cases game with
  | none => exact (Nat.add_le_add_left hle _).trans h
  | some stored => exact GameThread.CrowdOk.mono h hle

/-- The idle thread works on the queues of a room. -/
theorem RoomCrowdOk.withQueues {toCome toCome' : Nat} {game : Option GameThread}
    {room room' : GameRoom} (h : RoomCrowdOk toCome game room)
    (hevfd : room'.gameInput.evfd = room.gameInput.evfd)
    (hlength : room'.gameInput.data.length + toCome' ≤ room.gameInput.data.length + toCome) :
    RoomCrowdOk toCome' game room' := by
  cases game with
  | none => exact hlength.trans h
  | some stored => exact GameThread.CrowdOk.withQueues h hevfd hlength

/-- The clients in the output of a room: two players at most, and none as long as
there is a game. -/
theorem Phase.card_outputFds_le {game : Option GameThread} {room : GameRoom}
    (h : Phase game room) :
    (outputFds room.gameOutput).card ≤ 2 ∧ (game ≠ none → (outputFds room.gameOutput).card = 0) := by
  have hpauses : ∀ k, outputFds { room.gameOutput with
      data := List.replicate k { newState := .PAUSED } } = 0 := by
    intro k
    have hnobody : outputFds { room.gameOutput with data := [] } = 0 := rfl
    exact (outputFds_of_pauses (k := k) rfl).trans hnobody
  cases h with
  | idle _ houtput =>
    rw [outputFds, houtput]
    exact ⟨Nat.zero_le _, fun _ => rfl⟩
  | @running _ t k _ houtput =>
    have hnobody := hpauses k
    rw [← houtput] at hnobody
    rw [hnobody]
    exact ⟨Nat.zero_le _, fun _ => rfl⟩
  | @ended _ k client1 client2 _ houtput =>
    refine ⟨?_, fun hsome => (hsome rfl).elim⟩
    have hpush := outputFds_push
      { room.gameOutput with data := List.replicate k { newState := .PAUSED } }
      { newState := .IDLE, client1 := client1, client2 := client2 }
    rw [hpauses, zero_add] at hpush
    rw [outputFds, houtput]
    change (outputFds ({ room.gameOutput with data := _ }.push _)).card ≤ 2
    rw [hpush, GameStateChange.clientFds, Multiset.card_add]
    cases client1 <;> cases client2 <;> simp

namespace Server

open IdleUsersRoom

variable {s s' : Server} {action : ServerAction}

/-- The clients at all rooms are known. -/
def CrowdsOk (s : Server) : Prop :=
  ∀ roomId room, s.idle.gameRooms.get? roomId = some room →
    RoomCrowdOk (s.pc.toCome roomId) (s.games.get? roomId) room

/-- A new game has two clients to come. -/
theorem toCome_le (h : s.SenderFirst) (roomId : Int) : s.pc.toCome roomId ≤ 2 := by
  cases hpc : s.pc with
  | sending id clients clientFd messages =>
    rw [IdlePc.toCome]
    obtain ⟨client2, rfl | ⟨rfl, _⟩⟩ := h id clients clientFd messages hpc <;> split <;> simp
  | _ => exact Nat.zero_le _

theorem CrowdsOk.of_same (h : s.CrowdsOk) (hrooms : s'.idle.gameRooms = s.idle.gameRooms)
    (hgames : s'.games = s.games) (hpc : ∀ roomId, s'.pc.toCome roomId ≤ s.pc.toCome roomId) :
    s'.CrowdsOk := by
  intro roomId room hroom
  rw [hrooms] at hroom
  rw [hgames]
  exact (h roomId room hroom).mono (hpc roomId)

/-- One room and its game have changed. -/
theorem CrowdsOk.of_room (h : s.CrowdsOk) {roomId : Int} {f : GameRoom → GameRoom}
    (hrooms : s'.idle.gameRooms = s.idle.gameRooms.modify roomId f)
    (hgames : ∀ id, id ≠ roomId → s'.games.get? id = s.games.get? id)
    (hpc : ∀ id, id ≠ roomId → s'.pc.toCome id ≤ s.pc.toCome id)
    (hok : ∀ room, s.idle.gameRooms.get? roomId = some room →
      RoomCrowdOk (s'.pc.toCome roomId) (s'.games.get? roomId) (f room)) : s'.CrowdsOk := by
  intro id room' hroom'
  rw [hrooms] at hroom'
  by_cases hid : id = roomId
  · subst hid
    rw [UnorderedMap.get?_modify_self] at hroom'
    obtain ⟨room, hroom, rfl⟩ := Option.map_eq_some_iff.mp hroom'
    exact hok room hroom
  · rw [UnorderedMap.get?_modify_of_ne _ _ hid] at hroom'
    rw [hgames id hid]
    exact (h id room' hroom').mono (hpc id hid)

/-- A game starts, with at most two clients who were left in its input. -/
theorem CrowdsOk.startGame (h : s.CrowdsOk) (hinvariant : s.Invariant)
    {clientFd client2 roomId : Int} {messages : List ProtocolData} {room : GameRoom}
    {idle : IdleUsersRoom} {g : Game}
    (hroom : s.idle.gameRooms.get? roomId = some room) (hidle : room.gameState = .IDLE)
    (hnew : s.idle.newGameThread clientFd client2 roomId = .ok idle)
    (hstart : Game.start room.gameInput room.gameOutput = .ok g) :
    ({ s.withIdle (.sending roomId [clientFd, client2] clientFd messages) idle with
      games := s.games.set roomId { game := g } } : Server).CrowdsOk := by
  obtain ⟨usernameA, usernameB, epoll, rfl⟩ := newGameThread_eq_ok hnew
  refine h.of_room rfl (fun id hid => UnorderedMap.get?_set_of_ne _ _ hid) (fun id hid => ?_) ?_
  · rw [withIdle, IdlePc.toCome, if_neg (Ne.symm hid)]
    exact Nat.zero_le _
  · intro room' hroom'
    cases hroom.symm.trans hroom'
    have hleft := h roomId room hroom
    rw [((hinvariant.phase roomId room hroom).of_idle hidle).1] at hleft
    change room.gameInput.data.length + _ ≤ 2 at hleft
    rw [UnorderedMap.get?_set_self, withIdle, IdlePc.toCome, if_pos rfl]
    have huntouched := Game.untouched_start hstart
    obtain ⟨gameEpoll, rfl⟩ := Game.start_eq_ok hstart
    refine .untouched (.inl rfl) huntouched ?_
    change room.gameInput.data.length + 2 ≤ 4
    omega

/-- A client who is sent to a game is in its input instead of on his way. -/
theorem CrowdsOk.sendClient (h : s.CrowdsOk) (hinvariant : s.Invariant)
    {roomId clientFd fd : Int} {clients : List Int} {messages : List ProtocolData}
    {idle : IdleUsersRoom} (hpc : s.pc = .sending roomId (fd :: clients) clientFd messages)
    (hsend : s.idle.sendClientToGameThread roomId fd = .ok idle) :
    (s.withIdle (afterSend roomId clients clientFd messages) idle).CrowdsOk := by
  obtain ⟨moved, room, _, _, hroom, rfl⟩ := sendClientToGameThread_eq_ok hinvariant.stored hsend
  refine h.of_room rfl (fun _ _ => rfl) (fun id hid => ?_) ?_
  · change (afterSend roomId clients clientFd messages).toCome id ≤ _
    rw [toCome_afterSend, if_neg (Ne.symm hid)]
    exact Nat.zero_le _
  · intro room' hroom'
    cases hroom.symm.trans hroom'
    have hok := h roomId room hroom
    rw [hpc, IdlePc.toCome, if_pos rfl, List.length_cons] at hok
    change RoomCrowdOk ((afterSend roomId clients clientFd messages).toCome roomId) _ _
    rw [toCome_afterSend, if_pos rfl]
    refine hok.withQueues rfl ?_
    change (room.gameInput.push moved).data.length + clients.length ≤ _
    rw [EventfdQueue.data_push, List.length_append, List.length_singleton]
    omega

/-- Popping the output of a room leaves its input as it is. -/
theorem CrowdsOk.applyStateChange (h : s.CrowdsOk) (hinvariant : s.Invariant) {roomId : Int}
    {room : GameRoom} {change : GameStateChange} {data : List GameStateChange}
    {idle : IdleUsersRoom} (hroom : s.idle.gameRooms.get? roomId = some room)
    (hdata : room.gameOutput.data = change :: data)
    (happly : (s.idle.modifyRoom roomId
      (GameRoom.withOutput { room.gameOutput with data := data })).applyStateChange roomId change =
        .ok idle) : (s.withIdle (.changing roomId) idle).CrowdsOk := by
  have hsame : ∀ f : GameRoom → GameRoom, idle.gameRooms = s.idle.gameRooms.modify roomId f →
      (∀ room, (f room).gameInput = room.gameInput) →
      (s.withIdle (.changing roomId) idle).CrowdsOk := by
    intro f hrooms hinput
    refine h.of_room hrooms (fun _ _ => rfl) (fun _ _ => Nat.zero_le _) fun room' hroom' => ?_
    refine (h roomId room' hroom').withQueues ?_ ?_
    · rw [hinput]
    · rw [hinput]
      exact Nat.add_le_add_left (Nat.zero_le _) _
  rcases hinvariant.applied hroom hdata happly with ⟨_, rfl, _⟩ | ⟨_, _, _, back, hadmits, rfl⟩
  · exact hsame _ (UnorderedMap.modify_modify _ _ _ _) fun _ => rfl
  · exact hsame _ (gameRooms_setGameAsIdle hadmits) fun _ => rfl

/-- The clients of a game have descriptors of their own, which are not those of the
queues. -/
theorem heldFds_withQueues (hinvariant : s.Invariant) (hapart : s.SocketsApart) {roomId : Int}
    {room : GameRoom} {stored : GameThread} (hroom : s.idle.gameRooms.get? roomId = some room)
    (hstored : s.games.get? roomId = some stored) :
    (stored.withQueues room).game.heldFds.Nodup ∧
      (stored.withQueues room).game.gameInput.evfd ∉ (stored.withQueues room).game.heldFds := by
  have hheld : (stored.withQueues room).game.heldFds ≤ s.sockets.val :=
    calc (stored.withQueues room).game.heldFds
        = stored.game.playerFds + inputFds room.gameInput := rfl
      _ ≤ stored.game.playerFds + room.heldFds :=
        Multiset.add_le_add_left (Multiset.le_add_right _ _)
      _ = room.heldFds + stored.game.playerFds := add_comm _ _
      _ ≤ s.sockets.val := hinvariant.game_le hroom hstored
  refine ⟨Multiset.nodup_of_le hheld s.sockets.nodup, fun hmem => ?_⟩
  have hsocket := hapart _ (Multiset.mem_of_le hheld hmem)
  have hevfd : s.idle.isEvfd room.gameInput.evfd = true :=
    isEvfd_eq_true.mpr (.inr ⟨roomId, room.evfds, by rw [hroom]; rfl, .inl rfl⟩)
  cases hevfd.symm.trans hsocket

/-- A game thread goes on. -/
theorem CrowdsOk.game (h : s.CrowdsOk) (hinvariant : s.Invariant) (hapart : s.SocketsApart)
    (hfirst : s.SenderFirst) {roomId : Int} {action : GameAction} {room : GameRoom}
    {stored t' : GameThread} (hown : action.isOwn = true)
    (hroom : s.idle.gameRooms.get? roomId = some room) (hstored : s.games.get? roomId = some stored)
    (hgo : (stored.withQueues room).step action = some t') :
    (s.withThread roomId (stored.withQueues room) t').CrowdsOk := by
  refine h.of_room rfl (fun _ hid => games_of_ne rfl hid) (fun _ _ => le_rfl) fun room' hroom' => ?_
  cases hroom.symm.trans hroom'
  have hok := h roomId room hroom
  rw [hstored] at hok
  obtain ⟨hnodup, hevfd⟩ := heldFds_withQueues hinvariant hapart hroom hstored
  have hok' := GameThread.crowdOk_step hok (toCome_le hfirst roomId) hnodup hevfd hown hgo
  rw [withThread]
  split
  · rename_i hpc
    rw [UnorderedMap.get?_erase_self]
    exact hok'.of_finished (.inr hpc)
  · rw [UnorderedMap.get?_set_self]
    exact hok'

theorem CrowdsOk.step (h : s.CrowdsOk) (hreach : system.Reachable s)
    (hstep : s.step action = some s') : s'.CrowdsOk := by
  have hinvariant := invariant_of_reachable hreach
  have hnobody : ∀ roomId, 0 ≤ s.pc.toCome roomId := fun _ => Nat.zero_le _
  cases effect_of_step hinvariant.stored hstep with
  | accept _ heq =>
    subst heq
    exact h
  | handlerDone _ heq | newClientEvent heq =>
    subst heq
    exact h.of_same rfl rfl hnobody
  | addNewClient _ hadmits heq =>
    subst heq
    exact h.of_same hadmits.gameRooms rfl hnobody
  | receive hreceive heq =>
    subst heq
    exact h.of_same (admits_receiveMessages hreceive).gameRooms rfl hnobody
  | answer _ _ hanswer heq =>
    subst heq
    exact h.of_same (admits_answer hanswer).gameRooms rfl hnobody
  | disconnect heq =>
    subst heq
    exact h.of_same (admits_onClientDisconnect s.idle _).gameRooms rfl hnobody
  | startGame _ _ _ hroom hidle hnew hstart heq =>
    subst heq
    exact h.startGame hinvariant hroom hidle hnew hstart
  | sendClient hpc hsend heq =>
    subst heq
    exact h.sendClient hinvariant hpc hsend
  | @stateChangeEvent roomId heq =>
    subst heq
    refine h.of_room rfl (fun _ _ => rfl) (fun id _ => hnobody id) fun room hroom => ?_
    exact (h roomId room hroom).withQueues rfl (Nat.add_le_add_left (hnobody roomId) _)
  | applyStateChange hroom hdata happly heq =>
    subst heq
    exact h.applyStateChange hinvariant hroom hdata happly
  | game hown hroom hstored hgo heq =>
    subst heq
    exact h.game hinvariant (socketsApart_of_reachable hreach) (senderFirst_of_reachable hreach)
      hown hroom hstored hgo

theorem crowdsOk_of_reachable (h : system.Reachable s) : s.CrowdsOk := by
  refine h.invariant (P := CrowdsOk) (fun s hinit => ?_) fun s action s' hreach hok hstep =>
    hok.step hreach hstep
  intro roomId room hroom
  obtain ⟨_, inputEvfd, outputEvfd, roomCount, _, _, hstart, hpc, hgames, _⟩ := hinit
  obtain ⟨_, _, hidle⟩ := bind_eq_ok.mp hstart
  have hrooms : s.idle.gameRooms = createRooms inputEvfd outputEvfd roomCount := by
    rw [← Except.ok.inj hidle]
  rw [hrooms] at hroom
  rw [hgames, UnorderedMap.get?_empty, hpc]
  change room.gameInput.data.length + 0 ≤ 2
  rw [(get?_createRooms hroom).2.1]
  exact Nat.zero_le _

/-- The clients at a room: in its queues, and those who play. -/
def clientsOf (s : Server) (roomId : Int) : Multiset ProtocolClient :=
  s.clientsAt (.gameInput roomId) + s.clientsAt (.gameOutput roomId) +
    (s.clientsAt (.player roomId .player1) + s.clientsAt (.player roomId .player2))

private theorem card_clientsOf {roomId : Int} {room : GameRoom}
    (hroom : s.idle.gameRooms.get? roomId = some room) :
    (s.clientsOf roomId).card = room.gameInput.data.length + (outputFds room.gameOutput).card +
      ((s.games.get? roomId).elim 0 (·.game.playerFds)).card := by
  have houtput : (s.clientsAt (.gameOutput roomId)).card = (outputFds room.gameOutput).card := by
    rw [clientsAt, hroom, Option.elim, outputFds, Multiset.card_bind, Multiset.card_bind]
    refine congrArg _ (Multiset.map_congr rfl fun change _ => ?_)
    rw [Function.comp_apply, Function.comp_apply, ← change.map_clientFd_clients, Multiset.card_map]
  have hinput : (s.clientsAt (.gameInput roomId)).card = room.gameInput.data.length := by
    rw [clientsAt, hroom]
    rfl
  rw [clientsOf, Multiset.card_add, Multiset.card_add, Multiset.card_add, hinput, houtput,
    clientsAt, clientsAt]
  cases s.games.get? roomId with
  | none => rfl
  | some t =>
    simp only [Option.elim, Game.playerFds, Game.player]
    cases t.game.player1.client <;> cases t.game.player2.client <;> rfl

private theorem card_clientsOf_le (h : system.Reachable s) (roomId : Int) :
    (s.clientsOf roomId).card ≤ 4 := by
  cases hroom : s.idle.gameRooms.get? roomId with
  | none =>
    have hnone : s.games.get? roomId = none := by
      refine UnorderedMap.notMem_keys.mp fun hmem => ?_
      obtain ⟨room, hroom'⟩ := UnorderedMap.mem_keys.mp (keys_games_subset h hmem)
      cases hroom.symm.trans hroom'
    rw [clientsOf, clientsAt, clientsAt, clientsAt, clientsAt, hroom, hnone]
    exact Nat.zero_le _
  | some room =>
    have hok := crowdsOk_of_reachable h roomId room hroom
    obtain ⟨houtput, hnobody⟩ :=
      ((invariant_of_reachable h).phase roomId room hroom).card_outputFds_le
    rw [card_clientsOf hroom]
    cases hgame : s.games.get? roomId with
    | none =>
      rw [hgame] at hok
      change room.gameInput.data.length + _ ≤ 2 at hok
      change _ + 0 ≤ 4
      omega
    | some stored =>
      rw [hgame] at hok
      have hheld : (stored.withQueues room).game.heldFds.card ≤ 4 := hok.card_heldFds_le
      rw [Game.heldFds, Multiset.card_add, Multiset.coe_card, List.length_map] at hheld
      have hnobody := hnobody (by simp [hgame])
      change stored.game.playerFds.card + room.gameInput.data.length ≤ 4 at hheld
      change _ + stored.game.playerFds.card ≤ 4
      omega

/-- All clients are in the idle room or at one of the rooms. -/
theorem playerCount_eq (h : system.Reachable s) :
    s.playerCount = s.idle.clientsMap.keys.card +
      ∑ roomId ∈ s.idle.gameRooms.keys, (s.clientsOf roomId).card := by
  have hmap : (s.clientsAt .clientsMap).card = s.idle.clientsMap.keys.card := by
    have hone : ∀ clientFd ∈ s.idle.clientsMap.keys.val,
        ((s.idle.clientsMap.get? clientFd).elim 0 fun client => ({client} : Multiset _)).card = 1 := by
      intro clientFd hmem
      obtain ⟨client, hclient⟩ := UnorderedMap.mem_keys.mp hmem
      rw [hclient]
      rfl
    rw [clientsAt, UnorderedMap.tokens, Multiset.card_bind, Function.comp_def,
      Multiset.map_congr rfl hone, Multiset.map_const', Multiset.sum_replicate, smul_eq_mul, mul_one,
      Finset.card_val]
  have hgames : ∑ roomId ∈ s.games.keys,
      (s.clientsAt (.player roomId .player1) + s.clientsAt (.player roomId .player2)).card =
      ∑ roomId ∈ s.idle.gameRooms.keys,
        (s.clientsAt (.player roomId .player1) + s.clientsAt (.player roomId .player2)).card := by
    refine Finset.sum_subset (keys_games_subset h) fun roomId _ hnot => ?_
    rw [clientsAt, clientsAt, UnorderedMap.notMem_keys.mp hnot]
    rfl
  calc s.playerCount
      = (s.clientsAt .clientsMap).card + ((∑ roomId ∈ s.idle.gameRooms.keys,
          (s.clientsAt (.gameInput roomId) + s.clientsAt (.gameOutput roomId)).card) +
        ∑ roomId ∈ s.games.keys,
          (s.clientsAt (.player roomId .player1) + s.clientsAt (.player roomId .player2)).card) := by
        rw [playerCount, places, Multiset.cons_bind, Multiset.cons_bind, Multiset.add_bind,
          Multiset.bind_assoc, Multiset.bind_assoc]
        simp only [Multiset.insert_eq_cons, Multiset.cons_bind, Multiset.singleton_bind,
          Multiset.card_add, Multiset.card_bind, Function.comp_def]
        exact Nat.zero_add _
    _ = _ := by
        rw [hgames, hmap, ← Finset.sum_add_distrib]
        simp only [clientsOf, Multiset.card_add]

/-- The clients beyond the limit are among those at the rooms. -/
def Crowded (s : Server) : Prop :=
  s.playerCount ≤ s.idle.maxPlayerCount + 4 * s.idle.gameRooms.keys.card

/-- Rooms are neither opened nor closed. -/
theorem keys_gameRooms_step (hstored : s.idle.StoredUnderOwnFd)
    (hstep : s.step action = some s') : s'.idle.gameRooms.keys = s.idle.gameRooms.keys := by
  cases roomEffect_of_step hstored hstep with
  | same _ hrooms => rw [hrooms]
  | startGame _ _ _ hrooms | sendClient _ _ _ hrooms | readOutput hrooms | popOutput _ _ _ hrooms
  | game _ _ _ _ hrooms => rw [hrooms, UnorderedMap.keys_modify]

/-- Whoever is let in while the idle room is not full comes to fewer clients than
the limit and those at the rooms. -/
theorem crowded_step (hreach : system.Reachable s) (h : s.Crowded) (hstep : s.step action = some s') :
    s'.Crowded := by
  have hinvariant := invariant_of_reachable hreach
  have hlimit := maxPlayerCount_step hinvariant hstep
  have hrooms : s'.idle.gameRooms.keys = s.idle.gameRooms.keys :=
    keys_gameRooms_step hinvariant.stored hstep
  have hkept : s'.playerCount ≤ s.playerCount → s'.Crowded := by
    intro hle
    rw [Crowded, hlimit, hrooms]
    exact hle.trans h
  have hpasses : PassesDoor action → s'.Crowded := by
    intro hdoor
    obtain ⟨hqueue, hsockets⟩ := door_of_step hinvariant hdoor hstep
    have hcard := Finset.card_le_card hsockets
    have hbefore := card_sockets hinvariant
    have hafter := card_sockets (hinvariant.step hstep)
    rw [hqueue] at hafter
    exact hkept (by omega)
  cases action with
  | addNewClient =>
    have hcount := playerCount_addNewClient hinvariant hstep
    split at hcount
    · have hrest := playerCount_eq hreach
      have hsum := Finset.sum_le_card_nsmul s.idle.gameRooms.keys _ 4 fun roomId _ =>
        card_clientsOf_le hreach roomId
      rw [smul_eq_mul] at hsum
      rw [Crowded, hlimit, hrooms]
      omega
    · exact hkept hcount.le
  | accept clientFd =>
    obtain ⟨_, heq⟩ := Option.ite_none_right_eq_some.mp hstep
    cases heq
    exact hkept le_rfl
  | _ => exact hpasses ⟨nofun, nofun⟩

/-- At most four clients are ever at a room, and there are never more clients than
the limit and four for each room. -/
theorem crowd_of_reachable (h : system.Reachable s) :
    (∀ roomId, (s.clientsOf roomId).card ≤ 4) ∧
      s.playerCount ≤ s.idle.maxPlayerCount + 4 * s.idle.gameRooms.keys.card := by
  refine ⟨card_clientsOf_le h, ?_⟩
  refine h.invariant (P := Crowded) (fun s hinit => ?_) fun s action s' hreach hcrowded hstep =>
    crowded_step hreach hcrowded hstep
  have hlimit : s.playerCount ≤ s.idle.maxPlayerCount := withinLimit_init hinit
  exact hlimit.trans (Nat.le_add_right _ _)

/-- Twice a game ends before its own clients have been sent to it. Those of the third
game find two others in the input, and two more connect. -/
def crowdRoom : List ServerAction :=
  leaveEarly ++ .readDone :: hearOfGame ++ connectClient 12 ++ sendMessage 12 ["ENTER_USERNAME", "username:C"] ++
    sendMessage 11 ["JOIN_GAME", "game_id:1"] ++
    [.receive 12 (some (messageText ["JOIN_GAME", "game_id:1"])), .message,
      .game 1 .newClientEvent, .game 1 (.takeNewClient 1000 1000), .game 1 .collected,
      .game 1 (.receive 10 (some (messageText ["GAME_LEAVE"]))), .game 1 (.message 1000),
      .game 1 .readDone, .game 1 .stop, .game 1 .destroy, .sendClient, .sendClient] ++
    .readDone :: hearOfGame ++ connectClient 13 ++ sendMessage 13 ["ENTER_USERNAME", "username:D"] ++
    sendMessage 10 ["JOIN_GAME", "game_id:1"] ++
    [.receive 13 (some (messageText ["JOIN_GAME", "game_id:1"])), .message, .sendClient, .sendClient,
      .readDone] ++
    connectClient 14 ++ connectClient 15

/-- With room for two, six clients are connected to a server with one room. -/
theorem crowd_of_reachable_full : ∃ s, system.Reachable s ∧ s.idle.maxPlayerCount = 2 ∧
    s.idle.gameRooms.keys.card = 1 ∧ s.playerCount = 6 ∧
    (∀ roomId, (s.clientsOf roomId).card ≤ 4) ∧
      s.playerCount ≤ s.idle.maxPlayerCount + 4 * s.idle.gameRooms.keys.card := by
  have hcheck : (((oneRoomFor 2).bind (TransitionSystem.runActions step crowdRoom)).any fun s =>
      decide (s.idle.maxPlayerCount = 2 ∧ s.idle.gameRooms.keys.card = 1 ∧ s.playerCount = 6)) =
        true := by
    decide +kernel
  obtain ⟨s, hreachable, hstate⟩ :=
    TransitionSystem.exists_reachable_of_any (fun _ _ _ => id) (fun _ => init_of_oneRoomFor) hcheck
  obtain ⟨hmax, hrooms, hcount⟩ := of_decide_eq_true hstate
  exact ⟨s, hreachable, hmax, hrooms, hcount, crowd_of_reachable hreachable⟩

end Server

end UpsServer
