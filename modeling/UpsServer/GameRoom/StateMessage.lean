import UpsServer.GameRoom.BoardInvariant
import UpsServer.Protocol.Decoding

open UpsServer.BufferedParser

namespace UpsServer

namespace GameGraph

variable {n : Nat}

/-- The characters in which edges are written. -/
def IsEdgeChar (c : Char) : Prop := c.isDigit = true ∨ c ∈ ['{', ',', '}']

private theorem isEdgeChar_toString (i : Nat) : ∀ c ∈ (toString i).toList, IsEdgeChar c := by
  intro c hc
  exact .inl (Nat.isDigit_of_mem_toDigits (b := 10) (n := i) (by decide) (by decide)
    (by simpa using hc))

private theorem isEdgeChar_serializeEdgesOf (g : GameGraph n) (i : Nat) {result : Str}
    (h : ∀ c ∈ result, IsEdgeChar c) : ∀ c ∈ g.serializeEdgesOf i result, IsEdgeChar c := by
  refine List.foldlRecOn (motive := fun result => ∀ c ∈ result, IsEdgeChar c) _ _ h
    fun result hresult j _ => ?_
  have hedge : ∀ c ∈ result ++ '{' :: (toString i).toList ++ ',' :: (toString j).toList ++ ['}'],
      IsEdgeChar c := by
    intro c hc
    simp only [List.mem_append, List.mem_cons, List.not_mem_nil, or_false] at hc
    rcases hc with ((hc | rfl | hc) | rfl | hc) | rfl
    · exact hresult c hc
    · exact .inr (by decide)
    · exact isEdgeChar_toString i c hc
    · exact .inr (by decide)
    · exact isEdgeChar_toString j c hc
    · exact .inr (by decide)
  split
  · exact hresult
  · split
    · exact hresult
    · dsimp only
      split
      · exact hedge
      · exact List.forall_mem_append.mpr ⟨hedge, by simp [IsEdgeChar]⟩

private theorem isEdgeChar_serializeUndirectedEdges (g : GameGraph n) :
    ∀ c ∈ g.serializeUndirectedEdges, IsEdgeChar c :=
  List.foldlRecOn (motive := fun result => ∀ c ∈ result, IsEdgeChar c) _ _ (by simp)
    fun _ hresult i _ => isEdgeChar_serializeEdgesOf g i hresult

end GameGraph

namespace BufferedParser

/-- A user name that a client can send to the server. -/
def CanEnter (username : Str) : Prop :=
  ∃ chunks messages p msg, feed {} chunks = .ok (messages, p) ∧ msg ∈ messages ∧
    msg.method = .ENTER_USERNAME ∧ msg.data.get? "username".toList = some username

private theorem newline_of_canEnter {username : Str} (h : CanEnter username) : '\n' ∉ username := by
  obtain ⟨chunks, messages, p, msg, hfeed, hmsg, _, hget⟩ := h
  obtain rfl : messages = _ := feed_messages hfeed
  obtain ⟨text, _, rfl⟩ := List.mem_map.mp hmsg
  exact newline_frameMessage hget

end BufferedParser

namespace Game

/-- The data of the GAME_STATE messages a game can send: its state, or its state
after a move, with the winner when the move loses. -/
inductive IsStateData (g : Game) : UnorderedMap Str Str → Prop where
  | state : IsStateData g g.serializeGameData
  | moved {move : Move} {playerLost : Bool} {gameData : UnorderedMap Str Str}
      (h : (g.addMove move).moveData move playerLost = .ok gameData) : IsStateData g gameData

/-- The name of a player who is online. -/
def IsName (g : Game) (name : Str) : Prop :=
  ∃ ref client, (g.player ref).client = some client ∧ client.clientName = name

/-- A field of a game state: its value is the name of a player, or a text of the
game that has no line break. -/
def IsStateField (g : Game) (name value : Str) : Prop :=
  PlainName name ∧ (g.IsName value ∨ '\n' ∉ value ∧ '\r' ∉ value)

private theorem isStateField_clientName {g : Game} (name : Str) (hname : PlainName name)
    (ref : PlayerRef) :
    g.IsStateField name ((g.player ref).client.elim [] (·.clientName)) := by
  refine ⟨hname, ?_⟩
  cases hclient : (g.player ref).client with
  | none => exact .inr (by simp)
  | some client => exact .inl ⟨ref, client, hclient, rfl⟩

private theorem isStateField_serializeUndirectedEdges {g : Game} (name : Str) (hname : PlainName name)
    (graph : GameGraph GameGraph.GAME_NODE_NUM) :
    g.IsStateField name graph.serializeUndirectedEdges := by
  have hedges := graph.isEdgeChar_serializeUndirectedEdges
  exact ⟨hname, .inr ⟨fun h => absurd (hedges _ h) (by simp [GameGraph.IsEdgeChar]),
    fun h => absurd (hedges _ h) (by simp [GameGraph.IsEdgeChar])⟩⟩

private theorem isStateField_serializeGameData (g : Game) :
    ∀ name value, g.serializeGameData.get? name = some value → g.IsStateField name value := by
  have hstate : g.IsStateField "game_state".toList
      (if g.isPaused then "PAUSED".toList else "RUNNING".toList) := by
    refine ⟨by decide, .inr ?_⟩
    split <;> decide
  have hplayers := UnorderedMap.forall_set (UnorderedMap.forall_set
    (UnorderedMap.forall_set (P := g.IsStateField) (m := ∅) (by simp) hstate)
    (isStateField_clientName "player1_username".toList (by decide) .player1))
    (isStateField_clientName "player2_username".toList (by decide) .player2)
  have hedges := UnorderedMap.forall_set (UnorderedMap.forall_set hplayers
    (isStateField_serializeUndirectedEdges "player1_edges".toList (by decide)
      g.player1.myGraph))
    (isStateField_serializeUndirectedEdges "player2_edges".toList (by decide)
      g.player2.myGraph)
  unfold serializeGameData
  dsimp only
  split
  · refine UnorderedMap.forall_set hedges ?_
    split
    · exact isStateField_clientName _ (by decide) .player1
    · exact isStateField_clientName _ (by decide) .player2
  · exact hedges

theorem player_addMove_client (g : Game) (move : Move) (ref : PlayerRef) :
    ((g.addMove move).player ref).client = (g.player ref).client := by
  obtain ⟨mover, _, _⟩ := move
  cases mover <;> cases ref <;> rfl

private theorem isName_addMove {g : Game} {move : Move} {name : Str} :
    (g.addMove move).IsName name ↔ g.IsName name := by
  simp only [IsName, player_addMove_client]

/-- The winner is one of the players. -/
theorem isName_winningPlayer {g : Game} {loser : PlayerRef} {winner : ProtocolClient}
    (h : g.winningPlayer loser = .ok winner) : g.IsName winner.clientName := by
  obtain ⟨player1, h1, h⟩ := bind_eq_ok.mp h
  obtain ⟨player, _, h⟩ := bind_eq_ok.mp h
  split at h
  · exact ⟨.player2, winner, clientOf_eq_ok.mp h, rfl⟩
  · cases h
    exact ⟨.player1, winner, clientOf_eq_ok.mp h1, rfl⟩

theorem IsStateData.isStateField {g : Game} {data : UnorderedMap Str Str}
    (h : g.IsStateData data) :
    ∀ name value, data.get? name = some value → g.IsStateField name value := by
  cases h with
  | state => exact isStateField_serializeGameData g
  | @moved move playerLost _ hdata =>
    have hstate := isStateField_serializeGameData (g.addMove move)
    simp only [IsStateField, isName_addMove] at hstate
    unfold moveData at hdata
    split at hdata
    · obtain ⟨winner, hwinner, hdata⟩ := bind_eq_ok.mp hdata
      cases hdata
      exact UnorderedMap.forall_set hstate
        ⟨by decide, .inl (isName_addMove.mp (isName_winningPlayer hwinner))⟩
    · cases hdata
      exact hstate

/-- The field that is visited last does not hold the name of a player that ends
with a carriage return. -/
def LastNamePlain (g : Game) (fields : List (Str × Str)) : Prop :=
  ∀ field, fields.getLast? = some field → g.IsName field.2 → field.2.getLast? ≠ some '\r'

private theorem endsPlain_iff_lastNamePlain {g : Game} {fields : List (Str × Str)}
    (h : ∀ field ∈ fields, g.IsStateField field.1 field.2) :
    EndsPlain fields ↔ g.LastNamePlain fields := by
  refine ⟨fun hplain field hlast _ => hplain field hlast, fun hplain field hlast hcr => ?_⟩
  rcases (h field (List.mem_of_getLast? hlast)).2 with hname | ⟨_, hnone⟩
  · exact hplain field hlast hname hcr
  · exact hnone (List.mem_of_getLast? hcr)

/-- A game state sent to players whose names came through the parser contains a
single end sequence, as its end, exactly when the name written last, if any, does
not end with a carriage return. -/
theorem endsOnce_stateMessage_iff {g : Game} {data : UnorderedMap Str Str}
    {fields : List (Str × Str)} {text : Str}
    (hnames : ∀ ref client, (g.player ref).client = some client → CanEnter client.clientName)
    (hdata : g.IsStateData data) (horder : UnorderedMap.IsIterationOrder fields data)
    (htext : serializeProtocolData .GAME_STATE fields = .ok text) :
    EndsOnce text ↔ g.LastNamePlain fields := by
  have hfields : ∀ field ∈ fields, g.IsStateField field.1 field.2 := fun field hfield =>
    hdata.isStateField _ _ ((horder.2 _ _).mp hfield)
  have hnewline : NewlineFree fields := by
    intro field hfield
    refine ⟨(hfields field hfield).1.2, ?_⟩
    rcases (hfields field hfield).2 with ⟨ref, client, hclient, hname⟩ | ⟨hnone, _⟩
    · exact hname ▸ newline_of_canEnter (hnames ref client hclient)
    · exact hnone
  rw [endsOnce_iff htext hnewline, endsPlain_iff_lastNamePlain hfields]

end Game

namespace GameThread

open Game

/-- Two clients who wait for a game to take them, one of them with a carriage
return at the end of the name. -/
def namedClients : EventfdQueue ProtocolClient :=
  { evfd := 100,
    data := [{ clientFd := 10, clientName := ['A', '\r'] }, { clientFd := 11, clientName := ['B'] }],
    counter := 2 }

/-- The fields of the state of their game, in one of their orders. -/
def namedFields : List (Str × Str) :=
  [("game_state".toList, "RUNNING".toList), ("player1_username".toList, ['A', '\r']),
    ("player1_edges".toList, []), ("player2_edges".toList, []),
    ("on_turn".toList, ['A', '\r']), ("player2_username".toList, ['B'])]

/-- What the parser returns for a message with a field `username`. -/
theorem canEnter_of_feed {username : Str} (text : String)
    (h : (feed {} [text.toList]).toOption.any (fun x => x.1.any fun msg =>
      msg.method == .ENTER_USERNAME && msg.data.get? "username".toList == some username) = true) :
    CanEnter username := by
  obtain ⟨⟨messages, p⟩, hfeed, hany⟩ := (Option.any_eq_true ..).mp h
  obtain ⟨msg, hmsg, hfields⟩ := List.any_eq_true.mp hany
  simp only [Bool.and_eq_true, beq_iff_eq] at hfields
  exact ⟨_, messages, p, msg, toOption_eq_some.mp hfeed, hmsg, hfields.1, hfields.2⟩

private theorem canEnter_named : CanEnter ['A', '\r'] ∧ CanEnter ['B'] :=
  ⟨canEnter_of_feed "ENTER_USERNAME\nusername:A\r\nx:y\n\r\n\r\n" (by decide +kernel),
    canEnter_of_feed "ENTER_USERNAME\nusername:B\n\r\n\r\n" (by decide +kernel)⟩

/-- A reachable game of these clients, whose state has these fields. -/
theorem exists_named : ∃ t, system.Reachable t ∧
    (∀ ref client, (t.game.player ref).client = some client → CanEnter client.clientName) ∧
    t.game.serializeGameData = (∅ : UnorderedMap Str Str).setAll namedFields := by
  have hcheck : ((((Game.start namedClients { evfd := 101 }).toOption.map ({ game := · })).bind
      (TransitionSystem.runActions step joinBoth)).any fun t =>
        t.game.player1.client.map (·.clientName) == some ['A', '\r'] &&
          t.game.player2.client.map (·.clientName) == some ['B'] &&
          decide (t.game.serializeGameData =
            (∅ : UnorderedMap Str Str).setAll namedFields)) = true := by
    decide +kernel
  obtain ⟨t, hreachable, hstate⟩ := exists_of_start (by decide) hcheck
  simp only [Bool.and_eq_true, beq_iff_eq, decide_eq_true_eq] at hstate
  obtain ⟨⟨h1, h2⟩, hdata⟩ := hstate
  refine ⟨t, hreachable, fun ref client hclient => ?_, hdata⟩
  cases ref with
  | player1 =>
    rw [player] at hclient
    rw [hclient, Option.map_some, Option.some.injEq] at h1
    exact h1 ▸ canEnter_named.1
  | player2 =>
    rw [player] at hclient
    rw [hclient, Option.map_some, Option.some.injEq] at h2
    exact h2 ▸ canEnter_named.2

/-- The plain name is written last. -/
theorem endsOnce_stateMessage_iff_named : ∃ t text, system.Reachable t ∧
    UnorderedMap.IsIterationOrder namedFields t.game.serializeGameData ∧
    serializeProtocolData .GAME_STATE namedFields = .ok text ∧ EndsOnce text := by
  obtain ⟨t, hreachable, hnames, hdata⟩ := exists_named
  obtain ⟨name, hname, _⟩ := serializeMethodName_ok .GAME_STATE
  have htext := serializeProtocolData_eq hname namedFields
  have horder : UnorderedMap.IsIterationOrder namedFields t.game.serializeGameData :=
    hdata ▸ UnorderedMap.isIterationOrder_setAll (by decide)
  refine ⟨t, _, hreachable, horder, htext,
    (endsOnce_stateMessage_iff hnames .state horder htext).mpr fun field hlast _ => ?_⟩
  cases hlast
  decide

/-- The name with the carriage return may be written last. -/
theorem not_endsOnce_stateMessage_named : ¬ ∀ t data fields text, system.Reachable t →
    (∀ ref client, (t.game.player ref).client = some client → CanEnter client.clientName) →
    t.game.IsStateData data → UnorderedMap.IsIterationOrder fields data →
    serializeProtocolData .GAME_STATE fields = .ok text → EndsOnce text := by
  obtain ⟨t, hreachable, hnames, hdata⟩ := exists_named
  intro hall
  have hrotated : (∅ : UnorderedMap Str Str).setAll namedFields =
      (∅ : UnorderedMap Str Str).setAll (namedFields.rotateLeft 2) := by
    decide +kernel
  obtain ⟨name, hname, _⟩ := serializeMethodName_ok .GAME_STATE
  have htext := serializeProtocolData_eq hname (namedFields.rotateLeft 2)
  have horder : UnorderedMap.IsIterationOrder (namedFields.rotateLeft 2)
      t.game.serializeGameData := by
    rw [hdata, hrotated]
    exact UnorderedMap.isIterationOrder_setAll (by decide)
  have hnewline : NewlineFree (namedFields.rotateLeft 2) := by
    unfold NewlineFree
    decide
  have honce := hall t _ _ _ hreachable hnames .state horder htext
  exact (endsOnce_iff htext hnewline).mp honce _ rfl rfl

end GameThread

end UpsServer
