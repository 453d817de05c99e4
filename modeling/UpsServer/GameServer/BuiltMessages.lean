import UpsServer.GameRoom.StateMessage
import UpsServer.GameServer.Server

open UpsServer.BufferedParser

namespace UpsServer

/-- The methods of the messages that the server sends without fields. -/
def MethodName.isBare : MethodName → Bool
  | .CONNECTED_OK | .REQ_ACCEPTED | .REQ_DENIED | .GAME_IDLE | .GAME_PING => true
  | _ => false

namespace Server

/-- The messages that the server can build in a state: those without fields, the
list of the rooms, and the states of its games. -/
inductive Builds (s : Server) : ProtocolData → Prop where
  | bare {method : MethodName} (h : method.isBare = true) : Builds s (newProtocolMessage method [])
  | roomList {msg : ProtocolData} (h : s.idle.getRoomList = .ok msg) : Builds s msg
  | gameState {roomId : Int} {t : GameThread} {data : UnorderedMap Str Str}
      (ht : s.thread roomId = some t) (hdata : t.game.IsStateData data) :
      Builds s ⟨.GAME_STATE, data⟩

theorem getRoomList_eq_ok {idle : IdleUsersRoom} {msg : ProtocolData}
    (h : idle.getRoomList = .ok msg) : ∃ roomList : List (List Str),
      msg = ⟨.REQ_ACCEPTED, (∅ : UnorderedMap Str Str).set "room_list".toList
        (serializeObjectList roomList)⟩ := by
  obtain ⟨roomList, _, h⟩ := bind_eq_ok.mp h
  cases h
  exact ⟨roomList, rfl⟩

/-- The server never builds a message of a method the parser cannot name, and the
names of its fields do not disturb their lines. -/
theorem Builds.plain {s : Server} {msg : ProtocolData} (h : s.Builds msg) :
    msg.method ≠ .PARSING_FAILED ∧
      ∀ name value, msg.data.get? name = some value → PlainName name := by
  cases h with
  | @bare method h =>
    refine ⟨fun hmethod => ?_, fun name value hget => by cases hget⟩
    obtain rfl : method = .PARSING_FAILED := hmethod
    cases h
  | roomList h =>
    obtain ⟨roomList, rfl⟩ := getRoomList_eq_ok h
    exact ⟨MethodName.noConfusion, UnorderedMap.forall_set (by simp) (by decide)⟩
  | gameState _ hdata =>
    exact ⟨MethodName.noConfusion, fun name value hget => (hdata.isStateField name value hget).1⟩

/-- A message of the server is decoded to itself exactly when each of its values
is kept whole on its line, and the one written last does not run into the end
sequence. -/
theorem builds_decodes_iff {s : Server} {msg : ProtocolData} {fields : List (Str × Str)}
    (h : s.Builds msg) (horder : UnorderedMap.IsIterationOrder fields msg.data) :
    Decodes msg fields ↔ FieldsDecode fields :=
  decodes_iff horder (fun _ hfield => h.plain.2 _ _ ((horder.2 _ _).mp hfield)) h.plain.1

/-- The fields of the first state of their game. -/
def firstFields : List (Str × Str) :=
  [("game_state".toList, "RUNNING".toList), ("player1_username".toList, ['B']),
    ("player2_username".toList, ['A']), ("player1_edges".toList, []),
    ("player2_edges".toList, []), ("on_turn".toList, ['B'])]

private theorem exists_joinedServer : ∃ s t, system.Reachable s ∧ s.thread 1 = some t ∧
    t.game.serializeGameData = (∅ : UnorderedMap Str Str).setAll firstFields := by
  have hcheck : ((oneRoom.bind (TransitionSystem.runActions step joinGameOfTwo)).any fun s =>
      (s.thread 1).any fun t => decide (t.game.serializeGameData =
        (∅ : UnorderedMap Str Str).setAll firstFields)) = true := by
    decide +kernel
  obtain ⟨s, hreachable, hstate⟩ := exists_of_oneRoom hcheck
  obtain ⟨t, ht, hdata⟩ := (Option.any_eq_true ..).mp hstate
  exact ⟨s, t, hreachable, ht, of_decide_eq_true hdata⟩

/-- The fields of the state of their game when each of them has made a move. -/
def movedFields : List (Str × Str) :=
  [("game_state".toList, "RUNNING".toList), ("player1_username".toList, ['B']),
    ("player2_username".toList, ['A']), ("player1_edges".toList, "\x7b0,1\x7d,".toList),
    ("player2_edges".toList, "\x7b2,3\x7d,".toList), ("on_turn".toList, ['B'])]

private theorem fieldsDecode_moved : FieldsDecode movedFields := by
  refine ⟨by decide, fun field hlast => ?_⟩
  cases hlast
  decide

/-- A state with edges of both players is decoded to itself. -/
theorem builds_decodes_iff_moved : ∃ s msg, system.Reachable s ∧ s.Builds msg ∧
    UnorderedMap.IsIterationOrder movedFields msg.data ∧ Decodes msg movedFields := by
  have hcheck : ((oneRoom.bind (TransitionSystem.runActions step
      (joinGameOfTwo ++ moveOfTwo 11 "{0,1}" ++ moveOfTwo 10 "{2,3}"))).any fun s =>
        (s.thread 1).any fun t => decide (t.game.serializeGameData =
          (∅ : UnorderedMap Str Str).setAll movedFields)) = true := by
    decide +kernel
  obtain ⟨s, hreachable, hstate⟩ := exists_of_oneRoom hcheck
  obtain ⟨t, ht, hdata⟩ := (Option.any_eq_true ..).mp hstate
  have hbuilds : s.Builds ⟨.GAME_STATE, t.game.serializeGameData⟩ := .gameState ht .state
  have horder : UnorderedMap.IsIterationOrder movedFields t.game.serializeGameData :=
    of_decide_eq_true hdata ▸ UnorderedMap.isIterationOrder_setAll (by decide)
  exact ⟨s, _, hreachable, hbuilds, horder,
    (builds_decodes_iff hbuilds horder).mpr fieldsDecode_moved⟩

/-- The first state of a game shows a board without edges, whose field is empty. -/
theorem not_builds_decodes_first : ¬ ∀ s msg fields, system.Reachable s → s.Builds msg →
    UnorderedMap.IsIterationOrder fields msg.data → Decodes msg fields := by
  obtain ⟨s, t, hreachable, ht, hdata⟩ := exists_joinedServer
  have horder : UnorderedMap.IsIterationOrder firstFields t.game.serializeGameData :=
    hdata ▸ UnorderedMap.isIterationOrder_setAll (by decide)
  intro hall
  have hdecodes := hall s _ _ hreachable (.gameState ht .state) horder
  rw [decodes_iff horder (by decide) MethodName.noConfusion] at hdecodes
  exact (hdecodes.decode ("player1_edges".toList, []) (by decide)).nonempty rfl

end Server

end UpsServer
