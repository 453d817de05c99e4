import UpsServer.GameServer.Representation
import UpsServer.Protocol.ObjectList

namespace UpsServer

/-- What the room list shows of a room. -/
structure ShownRoom where
  user1 : Str
  user2 : Str
  roomId : Nat
  state : GameState
deriving DecidableEq

namespace ShownRoom

def columns (shown : ShownRoom) : List Str :=
  [shown.user1, shown.user2, (toString shown.roomId).toList, (toString shown.state.toNat).toList]

/-- How many commas the two names contain. -/
def commas (shown : ShownRoom) : Nat × Nat := (shown.user1.count ',', shown.user2.count ',')

/-- Only the names can contain commas. -/
theorem commas_columns {shown shown' : ShownRoom} (h : shown.commas = shown'.commas) :
    shown.columns.map (List.count ',') = shown'.columns.map (List.count ',') := by
  obtain ⟨huser1, huser2⟩ := Prod.mk.inj h
  have hdigit : ','.isDigit = false := by decide
  simp only [columns, List.map_cons, List.map_nil, count_toString hdigit, huser1, huser2]

private theorem columns_inj {shown shown' : ShownRoom} (h : shown.columns = shown'.columns) :
    shown = shown' := by
  obtain ⟨user1, user2, roomId, state⟩ := shown
  obtain ⟨user1', user2', roomId', state'⟩ := shown'
  simp only [columns, List.cons.injEq, and_true] at h
  obtain ⟨rfl, rfl, hroomId, hstate⟩ := h
  obtain rfl := toString_inj hroomId
  have hstate : state.toNat = state'.toNat := toString_inj hstate
  cases state <;> cases state' <;> first | rfl | cases hstate

/-- Rows that are shown by the same text are the same, as far as the commas in
their names agree. -/
theorem eq_of_text {rows rows' : List ShownRoom} (hcommas : rows.map commas = rows'.map commas)
    (h : serializeObjectList (rows.map columns) = serializeObjectList (rows'.map columns)) :
    rows = rows' := by
  have hcounts : ∀ {rows rows' : List ShownRoom}, rows.map commas = rows'.map commas →
      (rows.map columns).map (List.map (List.count ',')) =
        (rows'.map columns).map (List.map (List.count ',')) := by
    intro rows
    induction rows with
    | nil =>
      intro rows' hcommas
      rw [List.map_eq_nil_iff.mp hcommas.symm]
    | cons shown rows ih =>
      intro rows' hcommas
      cases rows' with
      | nil => cases hcommas
      | cons shown' rows' =>
        obtain ⟨hshown, hrows⟩ := List.cons.inj hcommas
        simp only [List.map_cons, commas_columns hshown, ih hrows]
  have hcolumns := serializeObjectList_inj (hcounts hcommas) h
  exact List.map_injective_iff.mpr (fun _ _ => columns_inj) hcolumns

end ShownRoom

namespace IdleUsersRoom

variable {idle : IdleUsersRoom} {leaving : List Int}

/-- The client who is waiting for the game of a room is shown in place of its
users. -/
def shownRoom (idle : IdleUsersRoom) (roomId : Int) : Option ShownRoom :=
  (idle.gameRooms.get? roomId).bind fun room =>
    match idle.waitingClient roomId with
    | some waiting => (idle.clientsMap.get? waiting).map fun client =>
      ⟨client.clientName, [], room.roomId, room.gameState⟩
    | none => some ⟨room.usernameA, room.usernameB, room.roomId, room.gameState⟩

/-- The value of the field `room_list`. -/
def roomListText (idle : IdleUsersRoom) : Option Str :=
  idle.getRoomList.toOption.bind (·.data.get? "room_list".toList)

private theorem roomLine_eq (htables : idle.TablesAgree leaving) {roomId : Int} {room : GameRoom}
    (hroom : idle.gameRooms.get? roomId = some room) :
    ∃ shown, idle.shownRoom roomId = some shown ∧
      idle.roomLine room (idle.waitingClient roomId) = .ok shown.columns := by
  rw [shownRoom, hroom, Option.bind_some]
  cases hwaiting : idle.waitingClient roomId with
  | none => exact ⟨_, rfl, rfl⟩
  | some waiting =>
    obtain ⟨client, hclient, _⟩ :=
      htables.waiting.named waiting roomId (waitingClient_eq_some hwaiting)
    refine ⟨⟨client.clientName, [], room.roomId, room.gameState⟩, ?_, ?_⟩
    · simp only [hclient, Option.map_some]
    · rw [roomLine, derefClient_eq_ok.mpr hclient]
      rfl

/-- The line of the room with a number. -/
def listLine (idle : IdleUsersRoom) (roomId : Int) : Exec IdleUsersRoom (List Str) :=
  (idle.gameRooms.get? roomId).elim (pure []) fun room =>
    idle.roomLine room (idle.waitingClient roomId)

theorem getRoomList_of_lines {roomList : List (List Str)}
    (h : idle.listedRooms.mapM idle.listLine = .ok roomList) :
    idle.getRoomList = .ok (newProtocolMessage .REQ_ACCEPTED
      [("room_list".toList, serializeObjectList roomList)]) := by
  refine bind_eq_ok.mpr ⟨roomList, ?_, rfl⟩
  rw [← h]
  congr 1
  funext roomId
  rw [listLine]
  cases idle.gameRooms.get? roomId <;> rfl

/-- The text of the room list is the one of the rows shown. -/
theorem roomListText_eq (htables : idle.TablesAgree leaving) : ∃ rows : List ShownRoom,
    idle.listedRooms.map idle.shownRoom = rows.map some ∧
      idle.roomListText = some (serializeObjectList (rows.map ShownRoom.columns)) := by
  have hrows : ∀ roomIds : List Int, (∀ roomId ∈ roomIds, roomId ∈ idle.gameRooms.keys) →
      ∃ rows : List ShownRoom, roomIds.map idle.shownRoom = rows.map some ∧
        roomIds.mapM idle.listLine = .ok (rows.map ShownRoom.columns) := by
    intro roomIds hroomIds
    induction roomIds with
    | nil => exact ⟨[], rfl, rfl⟩
    | cons roomId roomIds ih =>
      obtain ⟨hmem, hroomIds⟩ := List.forall_mem_cons.mp hroomIds
      obtain ⟨room, hroom⟩ := UnorderedMap.mem_keys.mp hmem
      obtain ⟨shown, hshown, hline⟩ := roomLine_eq htables hroom
      obtain ⟨rows, hmap, hmapM⟩ := ih hroomIds
      refine ⟨shown :: rows, ?_, ?_⟩
      · rw [List.map_cons, List.map_cons, hshown, hmap]
      · rw [List.mapM_cons, listLine, hroom, Option.elim_some, hline, hmapM]
        rfl
  obtain ⟨rows, hmap, hmapM⟩ := hrows idle.listedRooms fun roomId => mem_listedRooms.mp
  refine ⟨rows, hmap, ?_⟩
  rw [roomListText, getRoomList_of_lines hmapM]
  rfl

/-- A room that does not exist is not shown. -/
theorem shownRoom_of_notMem {roomId : Int} (h : roomId ∉ idle.gameRooms.keys) :
    idle.shownRoom roomId = none := by
  rw [shownRoom, UnorderedMap.notMem_keys.mp h, Option.bind_none]

end IdleUsersRoom

namespace Server

open IdleUsersRoom

/-- Two lists of the same rooms that have the same text show the same exactly
when in every room the names contain as many commas in one as in the other. -/
theorem shownRoom_eq_iff_commas {s t : Server} (hs : system.Reachable s)
    (ht : system.Reachable t) (hrooms : s.idle.gameRooms.keys = t.idle.gameRooms.keys)
    (htext : s.idle.roomListText = t.idle.roomListText) :
    (∀ roomId, s.idle.shownRoom roomId = t.idle.shownRoom roomId) ↔
      ∀ roomId, (s.idle.shownRoom roomId).map ShownRoom.commas =
        (t.idle.shownRoom roomId).map ShownRoom.commas := by
  constructor
  · intro hshown roomId
    rw [hshown roomId]
  · intro hcommas
    obtain ⟨rows, hmap, hrowsText⟩ := roomListText_eq (tables_of_reachable hs)
    obtain ⟨rows', hmap', hrowsText'⟩ := roomListText_eq (tables_of_reachable ht)
    rw [hrowsText, hrowsText', Option.some.injEq] at htext
    rw [listedRooms, ← hrooms, ← listedRooms] at hmap'
    have hcounts : rows.map ShownRoom.commas = rows'.map ShownRoom.commas := by
      have heq : (rows.map some).map (Option.map ShownRoom.commas) =
          (rows'.map some).map (Option.map ShownRoom.commas) := by
        rw [← hmap, ← hmap', List.map_map, List.map_map]
        exact List.map_congr_left fun roomId _ => hcommas roomId
      rw [List.map_map, List.map_map] at heq
      apply List.map_injective_iff.mpr (Option.some_injective _)
      rw [List.map_map, List.map_map]
      exact heq
    obtain rfl := ShownRoom.eq_of_text hcounts htext
    intro roomId
    by_cases hmem : roomId ∈ s.idle.gameRooms.keys
    · exact List.map_inj_left.mp (hmap.trans hmap'.symm) roomId (mem_listedRooms.mpr hmem)
    · rw [shownRoom_of_notMem hmem, shownRoom_of_notMem (hrooms ▸ hmem)]

/-- Two clients connect, enter the names that stand in their messages and start
the game of the room. -/
def startGameOf (field10 field11 : String) : List ServerAction :=
  connectClient 10 ++ connectClient 11 ++ sendMessage 10 ["ENTER_USERNAME", field10] ++
    sendMessage 11 ["ENTER_USERNAME", field11] ++
    sendMessage 10 ["JOIN_GAME", "game_id:1"] ++
    [.receive 11 (some (messageText ["JOIN_GAME", "game_id:1"])), .message, .sendClient, .sendClient,
      .readDone]

/-- The game of two players is shown by the text `{A,B,C,1,1}`. -/
def showsPlayers (user1 user2 : String) (s : Server) : Bool :=
  decide (s.idle.gameRooms.keys = {1} ∧ s.idle.roomListText = some "{A,B,C,1,1}".toList ∧
    s.idle.shownRoom 1 = some ⟨user1.toList, user2.toList, 1, .RUNNING⟩)

/-- A game of `A` and `B,C` and a game of `A,B` and `C` have the same text. -/
theorem exists_sameText : ∃ s t, system.Reachable s ∧ system.Reachable t ∧
    s.idle.gameRooms.keys = t.idle.gameRooms.keys ∧
    s.idle.roomListText = some "{A,B,C,1,1}".toList ∧
    t.idle.roomListText = some "{A,B,C,1,1}".toList ∧
    s.idle.shownRoom 1 = some ⟨"A".toList, "B,C".toList, 1, .RUNNING⟩ ∧
    t.idle.shownRoom 1 = some ⟨"A,B".toList, "C".toList, 1, .RUNNING⟩ := by
  have hcheck : ((oneRoom.bind (TransitionSystem.runActions step
      (startGameOf "username:B,C" "username:A"))).any (showsPlayers "A" "B,C")) = true := by
    decide +kernel
  have hcheck' : ((oneRoom.bind (TransitionSystem.runActions step
      (startGameOf "username:C" "username:A,B"))).any (showsPlayers "A,B" "C")) = true := by
    decide +kernel
  obtain ⟨s, hs, hshows⟩ := exists_of_oneRoom hcheck
  obtain ⟨t, ht, hshows'⟩ := exists_of_oneRoom hcheck'
  obtain ⟨hkeys, htext, hshown⟩ := of_decide_eq_true hshows
  obtain ⟨hkeys', htext', hshown'⟩ := of_decide_eq_true hshows'
  exact ⟨s, t, hs, ht, hkeys.trans hkeys'.symm, htext, htext', hshown, hshown'⟩

/-- The text does not tell the two games apart. -/
theorem not_shownRoom_eq_commaNames : ∃ s t, system.Reachable s ∧ system.Reachable t ∧
    s.idle.gameRooms.keys = t.idle.gameRooms.keys ∧
    (∃ text, s.idle.roomListText = some text ∧ t.idle.roomListText = some text) ∧
    ∃ shown shown', s.idle.shownRoom 1 = some shown ∧ t.idle.shownRoom 1 = some shown' ∧
      shown.user1 ≠ shown'.user1 ∧ shown.user2 ≠ shown'.user2 := by
  obtain ⟨s, t, hs, ht, hkeys, htext, htext', hshown, hshown'⟩ := exists_sameText
  exact ⟨s, t, hs, ht, hkeys, ⟨_, htext, htext'⟩, _, _, hshown, hshown', by decide, by decide⟩

/-- The commas are in different names. -/
theorem shownRoom_eq_iff_commas_two : ∃ s t, system.Reachable s ∧ system.Reachable t ∧
    s.idle.roomListText = t.idle.roomListText ∧
    ¬ ∀ roomId, s.idle.shownRoom roomId = t.idle.shownRoom roomId := by
  obtain ⟨s, t, hs, ht, hkeys, htext, htext', hshown, hshown'⟩ := exists_sameText
  have htexts := htext.trans htext'.symm
  refine ⟨s, t, hs, ht, htexts, fun hsame => ?_⟩
  have hcommas := (shownRoom_eq_iff_commas hs ht hkeys htexts).mp hsame 1
  rw [hshown, hshown'] at hcommas
  exact absurd hcommas (by decide)

end Server

end UpsServer
