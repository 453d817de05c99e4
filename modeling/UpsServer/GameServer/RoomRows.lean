import UpsServer.GameServer.RoomList

namespace UpsServer

namespace IdleUsersRoom

/-- The inverse of `waitingToJoinGame`, which the source fills in whatever order the
clients who wait are visited. -/
def waitingRooms (entries : List (Int × Int)) : UnorderedMap Int Int :=
  UnorderedMap.inverseOf entries

/-- A turn of the loop over the rooms. -/
def roomRow (idle : IdleUsersRoom) (entries : List (Int × Int)) (roomId : Int) :
    Exec IdleUsersRoom (List Str) := do
  let room ← idle.derefRoom roomId
  idle.roomLine room ((waitingRooms entries).get? roomId)

/-- The rows of `_getRoomList`, one after another. -/
def roomRows (idle : IdleUsersRoom) (entries : List (Int × Int)) :
    Exec IdleUsersRoom (List (List Str)) :=
  idle.listedRooms.mapM (idle.roomRow entries)

/-- What the row of a room shows: the client who waits for its game, or its users. -/
inductive IsRowOf (idle : IdleUsersRoom) (roomId : Int) : Option Int → List Str → Prop where
  | waiting {clientFd : Int} {client : ProtocolClient} {room : GameRoom}
      (hroom : idle.gameRooms.get? roomId = some room) (hnumber : room.roomId = roomId)
      (hclient : idle.clientsMap.get? clientFd = some client) :
      IsRowOf idle roomId (some clientFd)
        [client.clientName, [], (toString room.roomId).toList, (toString room.gameState.toNat).toList]
  | users {room : GameRoom} (hroom : idle.gameRooms.get? roomId = some room)
      (hnumber : room.roomId = roomId) :
      IsRowOf idle roomId none
        [room.usernameA, room.usernameB, (toString room.roomId).toList,
          (toString room.gameState.toNat).toList]

/-- The rows show the rooms in the order of their numbers, and the clients who wait
each in the row of his room and in no other. -/
structure ShownFaithfully (idle : IdleUsersRoom) (entries : List (Int × Int))
    (rows : List (List Str)) : Prop where
  built : idle.roomRows entries = .ok rows
  sent : idle.getRoomList =
    .ok (newProtocolMessage .REQ_ACCEPTED [("room_list".toList, serializeObjectList rows)])
  ascending : idle.listedRooms.Pairwise (· < ·)
  listed : ∀ roomId, roomId ∈ idle.listedRooms ↔ roomId ∈ idle.gameRooms.keys
  rows : List.Forall₂ (fun roomId => idle.IsRowOf roomId ((waitingRooms entries).get? roomId))
    idle.listedRooms rows
  inverse : ∀ clientFd roomId, (waitingRooms entries).get? roomId = some clientFd ↔
    idle.waitingToJoinGame.get? clientFd = some roomId
  once : ∀ clientFd roomId, idle.waitingToJoinGame.get? clientFd = some roomId →
    ∀ row, row ∈ idle.listedRooms ∧ (waitingRooms entries).get? row = some clientFd ↔ row = roomId
  users : ∀ roomId room, idle.gameRooms.get? roomId = some room → room.getUserCount = 2 →
    (waitingRooms entries).get? roomId = none

/-- Every room has the number it is stored under. -/
def RoomsNumbered (idle : IdleUsersRoom) : Prop :=
  ∀ roomId room, idle.gameRooms.get? roomId = some room → room.roomId = roomId

variable {idle idle' : IdleUsersRoom} {leaving : List Int} {entries : List (Int × Int)}

theorem RoomsNumbered.congr (h : idle.RoomsNumbered)
    (hrooms : ∀ roomId, (idle'.gameRooms.get? roomId).map GameRoom.roomId =
      (idle.gameRooms.get? roomId).map GameRoom.roomId) : idle'.RoomsNumbered := by
  intro roomId room' hroom'
  have heq := hrooms roomId
  rw [hroom', Option.map_some] at heq
  obtain ⟨room, hroom, hnumber⟩ := Option.map_eq_some_iff.mp heq.symm
  rw [← hnumber]
  exact h roomId room hroom

/-- One room has changed, but not in its number. -/
theorem RoomsNumbered.modify (h : idle.RoomsNumbered) {roomId : Int} {f : GameRoom → GameRoom}
    (hrooms : idle'.gameRooms = idle.gameRooms.modify roomId f)
    (hf : ∀ room, idle.gameRooms.get? roomId = some room → (f room).roomId = room.roomId) :
    idle'.RoomsNumbered := by
  refine h.congr fun id => ?_
  rw [hrooms]
  exact map_get?_modify GameRoom.roomId idle.gameRooms hf id

theorem RoomsNumbered.applyStateChange (h : idle.RoomsNumbered) {roomId : Int}
    {change : GameStateChange} (happly : idle.applyStateChange roomId change = .ok idle') :
    idle'.RoomsNumbered := by
  obtain ⟨_, back, hadmits, rfl⟩ | ⟨_, rfl⟩ | ⟨_, rfl⟩ := applyStateChange_eq_ok happly
  · have hback : back.RoomsNumbered := h.congr fun id => by rw [hadmits.gameRooms]
    exact hback.modify rfl fun _ _ => rfl
  · exact h
  · exact h.modify rfl fun _ _ => rfl

section Tables

variable (htables : idle.TablesAgree leaving)
  (hentries : UnorderedMap.IsIterationOrder entries idle.waitingToJoinGame)
include htables hentries

/-- Nobody is overwritten, as no two clients wait for one room. -/
theorem get?_waitingRooms {clientFd roomId : Int} :
    (waitingRooms entries).get? roomId = some clientFd ↔
      idle.waitingToJoinGame.get? clientFd = some roomId :=
  hentries.get?_inverseOf htables.waiting.alone

private theorem waitingRooms_eq_waitingClient (roomId : Int) :
    (waitingRooms entries).get? roomId = idle.waitingClient roomId := by
  cases hwaiting : idle.waitingClient roomId with
  | some clientFd =>
    exact (get?_waitingRooms htables hentries).mpr (waitingClient_eq_some hwaiting)
  | none =>
    rw [Option.eq_none_iff_forall_ne_some]
    intro clientFd hclient
    exact waitingClient_eq_none hwaiting clientFd ((get?_waitingRooms htables hentries).mp hclient)

private theorem roomRow_eq (hnumbered : idle.RoomsNumbered) {roomId : Int}
    (hmem : roomId ∈ idle.gameRooms.keys) :
    ∃ row, idle.roomRow entries roomId = .ok row ∧ idle.listLine roomId = .ok row ∧
      idle.IsRowOf roomId ((waitingRooms entries).get? roomId) row := by
  obtain ⟨room, hroom⟩ := UnorderedMap.mem_keys.mp hmem
  have hnumber := hnumbered roomId room hroom
  have hrow : idle.roomRow entries roomId =
      idle.roomLine room ((waitingRooms entries).get? roomId) := by
    rw [roomRow, derefRoom_eq_ok.mpr hroom]
    rfl
  rw [hrow, listLine, hroom, Option.elim_some, ← waitingRooms_eq_waitingClient htables hentries]
  cases hwaiting : (waitingRooms entries).get? roomId with
  | none => exact ⟨_, rfl, rfl, .users hroom hnumber⟩
  | some clientFd =>
    obtain ⟨client, hclient, _⟩ :=
      htables.waiting.named clientFd roomId ((get?_waitingRooms htables hentries).mp hwaiting)
    rw [roomLine, derefClient_eq_ok.mpr hclient]
    exact ⟨_, rfl, rfl, .waiting hroom hnumber hclient⟩

private theorem roomRows_eq (hnumbered : idle.RoomsNumbered) (roomIds : List Int)
    (hmem : ∀ roomId ∈ roomIds, roomId ∈ idle.gameRooms.keys) :
    ∃ rows, roomIds.mapM (idle.roomRow entries) = .ok rows ∧
      roomIds.mapM idle.listLine = .ok rows ∧
      List.Forall₂ (fun roomId => idle.IsRowOf roomId ((waitingRooms entries).get? roomId))
        roomIds rows := by
  induction roomIds with
  | nil => exact ⟨[], rfl, rfl, .nil⟩
  | cons roomId roomIds ih =>
    obtain ⟨hfirst, hlater⟩ := List.forall_mem_cons.mp hmem
    obtain ⟨row, hrow, hline, hshows⟩ := roomRow_eq htables hentries hnumbered hfirst
    obtain ⟨rows, hrows, hlines, hall⟩ := ih hlater
    refine ⟨row :: rows, ?_, ?_, .cons hshows hall⟩
    · rw [List.mapM_cons, hrow, hrows]
      rfl
    · rw [List.mapM_cons, hline, hlines]
      rfl

end Tables

/-- A room with two users is not idle, and nobody waits for its game. -/
theorem TablesAgree.nobodyWaits (h : idle.TablesAgree []) {roomId : Int} {room : GameRoom}
    (hroom : idle.gameRooms.get? roomId = some room) (husers : room.getUserCount = 2)
    (clientFd : Int) : idle.waitingToJoinGame.get? clientFd ≠ some roomId := by
  intro hwaiting
  obtain ⟨room', hroom', hidle⟩ := h.waiting.idleRoom clientFd roomId hwaiting List.not_mem_nil
  obtain rfl : room = room' := Option.some.inj (hroom.symm.trans hroom')
  have hcount := h.rooms.users roomId room hroom
  rw [if_pos hidle, husers] at hcount
  cases hcount

end IdleUsersRoom

namespace Server

open IdleUsersRoom

variable {s s' : Server} {action : ServerAction}

theorem numbered_step (hinvariant : s.Invariant) (h : s.idle.RoomsNumbered)
    (hstep : s.step action = some s') : s'.idle.RoomsNumbered := by
  have hsame : ∀ {idle : IdleUsersRoom}, idle.gameRooms = s.idle.gameRooms → idle.RoomsNumbered :=
    fun hrooms => h.congr fun id => by rw [hrooms]
  cases effect_of_step hinvariant.stored hstep with
  | accept _ heq | handlerDone _ heq | newClientEvent heq =>
    subst heq
    exact hsame rfl
  | addNewClient _ hadmits heq =>
    subst heq
    exact hsame hadmits.gameRooms
  | receive hreceive heq =>
    subst heq
    exact hsame (admits_receiveMessages hreceive).gameRooms
  | answer _ _ hanswer heq =>
    subst heq
    exact hsame (admits_answer hanswer).gameRooms
  | disconnect heq =>
    subst heq
    exact hsame (admits_onClientDisconnect s.idle _).gameRooms
  | startGame _ _ _ _ _ hnew _ heq =>
    obtain ⟨usernameA, usernameB, epoll, rfl⟩ := newGameThread_eq_ok hnew
    subst heq
    exact h.modify rfl fun _ _ => rfl
  | sendClient _ hsend heq =>
    obtain ⟨client, room, _, _, _, rfl⟩ := sendClientToGameThread_eq_ok hinvariant.stored hsend
    subst heq
    exact h.modify rfl fun _ _ => rfl
  | stateChangeEvent heq | game _ _ _ _ heq =>
    subst heq
    exact h.modify rfl fun _ _ => rfl
  | @applyStateChange roomId room change data idle _ _ happly heq =>
    subst heq
    have hpopped : (s.idle.modifyRoom roomId
        (GameRoom.withOutput { room.gameOutput with data := data })).RoomsNumbered :=
      h.modify rfl fun _ _ => rfl
    exact hpopped.applyStateChange happly

theorem numbered_of_reachable (h : system.Reachable s) : s.idle.RoomsNumbered := by
  refine h.invariant (P := fun s => s.idle.RoomsNumbered) ?_ ?_
  · rintro s ⟨newClientsEvfd, inputEvfd, outputEvfd, roomCount, maxPlayerCount, _, hstart, _⟩
    obtain ⟨epoll, hepoll, hidle⟩ := bind_eq_ok.mp hstart
    obtain ⟨idle, pc, games, sockets⟩ := s
    cases hidle
    intro roomId room hroom
    obtain ⟨i, rfl, rfl⟩ := room_of_createRooms hroom
    rfl
  · exact fun s action s' hreach hnumbered hstep =>
      numbered_step (invariant_of_reachable hreach) hnumbered hstep

/-- Unless the clients of a new game are just being sent to it, the room list shows
every room, and everyone who waits for a game in the row of his room and nowhere
else, in whatever order the inverse map was filled. -/
theorem shownFaithfully_of_reachable (h : system.Reachable s) (hpc : s.pc.leaving = [])
    {entries : List (Int × Int)}
    (hentries : UnorderedMap.IsIterationOrder entries s.idle.waitingToJoinGame) :
    ∃ rows, s.idle.ShownFaithfully entries rows := by
  have htables := tables_of_reachable h
  rw [hpc] at htables
  obtain ⟨rows, hrows, hlines, hall⟩ := roomRows_eq htables hentries (numbered_of_reachable h)
    s.idle.listedRooms fun _ => mem_listedRooms.mp
  have hinverse : ∀ clientFd roomId, (waitingRooms entries).get? roomId = some clientFd ↔
      s.idle.waitingToJoinGame.get? clientFd = some roomId :=
    fun _ _ => get?_waitingRooms htables hentries
  refine ⟨rows, hrows, getRoomList_of_lines hlines, s.idle.pairwise_listedRooms,
    fun _ => mem_listedRooms, hall, hinverse, ?_, ?_⟩
  · intro clientFd roomId hwaiting row
    rw [hinverse, hwaiting, Option.some.injEq, mem_listedRooms]
    obtain ⟨room, hroom, _⟩ :=
      htables.waiting.idleRoom clientFd roomId hwaiting List.not_mem_nil
    constructor
    · rintro ⟨_, hsame⟩
      exact hsame.symm
    · rintro rfl
      exact ⟨UnorderedMap.mem_keys_of_get? hroom, rfl⟩
  · intro roomId room hroom husers
    rw [Option.eq_none_iff_forall_ne_some]
    intro clientFd hshown
    exact htables.nobodyWaits hroom husers clientFd ((hinverse clientFd roomId).mp hshown)

/-- A client waits for the only game. -/
theorem shownFaithfully_of_reachable_waits : ∃ s entries rows, system.Reachable s ∧
    s.pc.leaving = [] ∧ UnorderedMap.IsIterationOrder entries s.idle.waitingToJoinGame ∧
    entries = [(10, 1)] ∧ s.idle.ShownFaithfully entries rows := by
  have hcheck : ((oneRoom.bind (TransitionSystem.runActions step (connectClient 10 ++
      sendMessage 10 ["ENTER_USERNAME", "username:A"] ++ sendMessage 10 ["JOIN_GAME", "game_id:1"]))).any
        fun s => decide (s.pc.leaving = [] ∧
          s.idle.waitingToJoinGame = (∅ : UnorderedMap Int Int).setAll [(10, 1)])) = true := by
    decide +kernel
  obtain ⟨s, hs, hstate⟩ := exists_of_oneRoom hcheck
  obtain ⟨hpc, hwaiting⟩ := of_decide_eq_true hstate
  have hentries : UnorderedMap.IsIterationOrder [(10, 1)] s.idle.waitingToJoinGame := by
    rw [hwaiting]
    exact UnorderedMap.isIterationOrder_setAll (by decide)
  obtain ⟨rows, hrows⟩ := shownFaithfully_of_reachable hs hpc hentries
  exact ⟨s, [(10, 1)], rows, hs, hpc, hentries, rfl, hrows⟩

end Server

end UpsServer
