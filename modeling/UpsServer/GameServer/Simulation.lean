import UpsServer.GameServer.Career
import UpsServer.GameServer.Ownership
import UpsServer.GameServer.Representation

open Relation

namespace UpsServer

namespace IdleUsersRoom

variable {idle idle' : IdleUsersRoom} {clientFd : Int}

private theorem client_of_erase (hclients : idle'.clientsMap = idle.clientsMap.erase clientFd) {fd : Int}
    {client : ProtocolClient} (h : idle'.clientsMap.get? fd = some client) :
    idle.clientsMap.get? fd = some client := by
  rw [hclients, UnorderedMap.get?_erase] at h
  exact (Option.ite_none_left_eq_some.mp h).2

theorem client_of_onClientDisconnect {fd : Int} {client : ProtocolClient}
    (h : (idle.onClientDisconnect clientFd).clientsMap.get? fd = some client) :
    fd ≠ clientFd ∧ idle.clientsMap.get? fd = some client := by
  have hne : fd ≠ clientFd := by
    rintro rfl
    exact not_owns_onClientDisconnect idle fd ⟨client, h⟩
  refine ⟨hne, ?_⟩
  unfold onClientDisconnect at h
  split at h
  · exact client_of_erase rfl h
  · exact h

private theorem client_of_set {client' : ProtocolClient}
    (hclients : idle'.clientsMap = idle.clientsMap.set clientFd client') {fd : Int}
    {client : ProtocolClient} (h : idle'.clientsMap.get? fd = some client) :
    client = client' ∨ idle.clientsMap.get? fd = some client := by
  rw [hclients, UnorderedMap.get?_set] at h
  split at h
  · cases h
    exact .inl rfl
  · exact .inr h

private theorem clientsMap_storeClient (idle : IdleUsersRoom) (clientFd : Int) (client : ProtocolClient) :
    (idle.storeClient clientFd client).clientsMap = idle.clientsMap.set clientFd client := by
  unfold storeClient
  split <;> rfl

private theorem clientsMap_welcome {client : ProtocolClient}
    (h : (idle.storeClient clientFd client).welcomeClient clientFd = .ok idle') :
    idle'.clientsMap =
      idle.clientsMap.set clientFd (client.sendMsg (newProtocolMessage .CONNECTED_OK [])) := by
  obtain ⟨epoll, _, hsend⟩ := bind_eq_ok.mp h
  obtain ⟨_, rfl⟩ := sendMsg_eq_ok.mp hsend
  ext1 fd
  rw [modifyClient, UnorderedMap.get?_modify]
  simp only [clientsMap_storeClient, UnorderedMap.get?_set]
  split <;> rfl

theorem client_of_addNewClient (h : idle.addNewClient clientFd = .ok idle') {fd : Int}
    {client : ProtocolClient} (hclient : idle'.clientsMap.get? fd = some client) :
    client = Career.connected clientFd ∨ idle.clientsMap.get? fd = some client := by
  simp only [addNewClient] at h
  split at h
  · cases h
    obtain ⟨hne, hstored⟩ := client_of_onClientDisconnect hclient
    rw [clientsMap_storeClient, UnorderedMap.get?_set_of_ne _ _ hne] at hstored
    exact .inr hstored
  · exact client_of_set (clientsMap_welcome h) hclient

private theorem client_of_addClientBack {back : Option ProtocolClient}
    (h : idle.addClientBack back = .ok idle') {fd : Int} {client : ProtocolClient}
    (hclient : idle'.clientsMap.get? fd = some client) :
    (∃ c, back = some c ∧ client = c.sendMsg (newProtocolMessage .CONNECTED_OK [])) ∨
      idle.clientsMap.get? fd = some client := by
  cases back with
  | none =>
    cases h
    exact .inr hclient
  | some c =>
    obtain heq | hstored := client_of_set (clientsMap_welcome h) hclient
    · exact .inl ⟨c, rfl, heq⟩
    · exact .inr hstored

/-- Whoever is in the idle room after a change was there before, or returns with
it. -/
theorem client_of_applyStateChange {roomId : Int} {change : GameStateChange}
    (h : idle.applyStateChange roomId change = .ok idle') {fd : Int} {client : ProtocolClient}
    (hclient : idle'.clientsMap.get? fd = some client) :
    (∃ c, (change.client1 = some c ∨ change.client2 = some c) ∧
      client = c.sendMsg (newProtocolMessage .CONNECTED_OK [])) ∨
      idle.clientsMap.get? fd = some client := by
  obtain ⟨_, first, back, hfirst, hback, rfl⟩ | ⟨_, rfl⟩ | ⟨_, rfl⟩ := applyStateChange_cases h
  · obtain ⟨c, hc, heq⟩ | hclient := client_of_addClientBack hback hclient
    · exact .inl ⟨c, .inr hc, heq⟩
    · obtain ⟨c, hc, heq⟩ | hclient := client_of_addClientBack hfirst hclient
      · exact .inl ⟨c, .inl hc, heq⟩
      · exact .inr hclient
  · exact .inr hclient
  · exact .inr hclient

private theorem client_of_receiveMessages {received : Option Str} {messages : List ProtocolData}
    (h : idle.receiveMessages clientFd received = .ok (messages, idle')) {fd : Int}
    {client' : ProtocolClient} (hclient' : idle'.clientsMap.get? fd = some client') :
    idle.clientsMap.get? fd = some client' ∨
      ∃ client data parsed parser, idle.clientsMap.get? clientFd = some client ∧
        client.parser.parse data = .ok (parsed, parser) ∧
        client' = { client with parser := parser } := by
  obtain ⟨client, hclient, hrest⟩ := bind_eq_ok.mp h
  rw [clientAt_eq_ok] at hclient
  split at hrest
  · cases hrest
    exact .inl (client_of_onClientDisconnect hclient').2
  · rename_i hreceive
    cases hrest
    obtain ⟨data, parser, _, hparse, rfl⟩ := ProtocolClient.parse_of_receiveMsg hreceive
    obtain heq | hstored := client_of_set (clientsMap_modifyClient hclient _) hclient'
    · exact .inr ⟨client, data, _, parser, hclient, hparse, heq⟩
    · exact .inl hstored

/-- The messages of a read came through the parser of their sender. -/
theorem attributesOk_of_receiveMessages {received : Option Str} {messages : List ProtocolData}
    (hcache : ∀ client, idle.clientsMap.get? clientFd = some client → client.parser.CacheOk)
    (h : idle.receiveMessages clientFd received = .ok (messages, idle')) :
    ∀ msg ∈ messages, BufferedParser.AttributesOk msg.data := by
  obtain ⟨client, hclient, hrest⟩ := bind_eq_ok.mp h
  rw [clientAt_eq_ok] at hclient
  split at hrest
  · cases hrest
    exact fun _ hmsg => nomatch hmsg
  · rename_i hreceive
    cases hrest
    obtain ⟨data, parser, _, hparse, rfl⟩ := ProtocolClient.parse_of_receiveMsg hreceive
    have hgives := BufferedParser.gives_parse (hcache client hclient) data
    rw [hparse] at hgives
    exact hgives.1

end IdleUsersRoom

/-- The messages of a read that are still to be processed. -/
def IdlePc.messages : IdlePc → List ProtocolData
  | .reading _ messages | .sending _ _ _ messages => messages
  | _ => []

namespace Server

open IdleUsersRoom

/-- All clients live as clients do. The messages that are left of a read came
through a parser, and whoever is on his way to a game has a name. -/
structure Careers (s : Server) : Prop where
  clients : ∀ place client, client ∈ s.clientsAt place → Career.system.Reachable (place, client)
  messages : ∀ msg ∈ s.pc.messages, BufferedParser.AttributesOk msg.data
  leaving : ∀ fd ∈ s.pc.leaving, ∀ client, s.idle.clientsMap.get? fd = some client →
    client.hasName = true

/-- A client has just been let in, or he was somewhere before. -/
def Stems (s : Server) (c' : Place × ProtocolClient) : Prop :=
  (∃ clientFd ∈ s.idle.newClientsQueue.data, c' = (.clientsMap, Career.connected clientFd)) ∨
    ∃ place client, client ∈ s.clientsAt place ∧ Career.Turn (place, client) c'

section Places

variable {s : Server} {client : ProtocolClient} {roomId : Int}

theorem mem_clientsMap :
    client ∈ s.clientsAt .clientsMap ↔ ∃ fd, s.idle.clientsMap.get? fd = some client := by
  simp only [clientsAt, UnorderedMap.mem_tokens, Multiset.mem_singleton]
  constructor
  · rintro ⟨fd, stored, hstored, rfl⟩
    exact ⟨fd, hstored⟩
  · rintro ⟨fd, hstored⟩
    exact ⟨fd, client, hstored, rfl⟩

theorem mem_player {ref : PlayerRef} : client ∈ s.clientsAt (.player roomId ref) ↔
    ∃ t, s.games.get? roomId = some t ∧ (t.game.player ref).client = some client := by
  rw [clientsAt]
  cases s.games.get? roomId with
  | none => simp
  | some t => simp [Custody.mem_elim_singleton]

private theorem mem_gameInput : client ∈ s.clientsAt (.gameInput roomId) ↔
    ∃ room, s.idle.gameRooms.get? roomId = some room ∧ client ∈ room.gameInput.data := by
  rw [clientsAt]
  cases s.idle.gameRooms.get? roomId with
  | none => simp
  | some room => simp

theorem mem_gameOutput : client ∈ s.clientsAt (.gameOutput roomId) ↔
    ∃ room change, s.idle.gameRooms.get? roomId = some room ∧ change ∈ room.gameOutput.data ∧
      (change.client1 = some client ∨ change.client2 = some client) := by
  rw [clientsAt]
  cases s.idle.gameRooms.get? roomId with
  | none => simp
  | some room => simp [GameStateChange.clients, Custody.mem_elim_singleton, and_or_left, exists_or]

end Places

variable {s s' : Server} {action : ServerAction}

private theorem stems_of_mem {place : Place} {client : ProtocolClient} (h : client ∈ s.clientsAt place) :
    s.Stems (place, client) :=
  .inr ⟨place, client, h, .stays⟩

theorem stems_of_step {place : Place} {client : ProtocolClient} {c' : Place × ProtocolClient}
    (h : client ∈ s.clientsAt place) (hstep : Career.Step (place, client) c') : s.Stems c' :=
  .inr ⟨place, client, h, .moves hstep⟩

/-- Whoever is in the queues of a room stems from before. -/
structure QueuesStem (s : Server) (roomId : Int) (room : GameRoom) : Prop where
  input : ∀ client ∈ room.gameInput.data, s.Stems (.gameInput roomId, client)
  output : ∀ change ∈ room.gameOutput.data, ∀ client,
    change.client1 = some client ∨ change.client2 = some client →
      s.Stems (.gameOutput roomId, client)

/-- Everybody stems from before. -/
structure StemsAll (s s' : Server) : Prop where
  idle : ∀ fd client, s'.idle.clientsMap.get? fd = some client → s.Stems (.clientsMap, client)
  players : ∀ roomId t ref client, s'.games.get? roomId = some t →
    (t.game.player ref).client = some client → s.Stems (.player roomId ref, client)
  rooms : ∀ roomId room, s'.idle.gameRooms.get? roomId = some room → s.QueuesStem roomId room

theorem StemsAll.stems (h : StemsAll s s') {place : Place} {client : ProtocolClient}
    (hclient : client ∈ s'.clientsAt place) : s.Stems (place, client) := by
  cases place with
  | newClientsQueue => exact (Multiset.notMem_zero _ hclient).elim
  | clientsMap =>
    obtain ⟨fd, hstored⟩ := mem_clientsMap.mp hclient
    exact h.idle fd client hstored
  | player roomId ref =>
    obtain ⟨t, ht, hplayer⟩ := mem_player.mp hclient
    exact h.players roomId t ref client ht hplayer
  | gameInput roomId =>
    obtain ⟨room, hroom, hinput⟩ := mem_gameInput.mp hclient
    exact (h.rooms roomId room hroom).input client hinput
  | gameOutput roomId =>
    obtain ⟨room, change, hroom, hchange, hreturns⟩ := mem_gameOutput.mp hclient
    exact (h.rooms roomId room hroom).output change hchange client hreturns

private theorem stems_idle {fd : Int} {client : ProtocolClient}
    (h : s.idle.clientsMap.get? fd = some client) : s.Stems (.clientsMap, client) :=
  stems_of_mem (mem_clientsMap.mpr ⟨fd, h⟩)

private theorem stems_players {games : UnorderedMap Int GameThread} (hgames : games = s.games) (roomId : Int)
    (t : GameThread) (ref : PlayerRef) (client : ProtocolClient) (ht : games.get? roomId = some t)
    (hplayer : (t.game.player ref).client = some client) : s.Stems (.player roomId ref, client) :=
  stems_of_mem (mem_player.mpr ⟨t, hgames ▸ ht, hplayer⟩)

/-- Nobody has come to the queues of a room. -/
theorem queuesStem {roomId : Int} {room room' : GameRoom}
    (hroom : s.idle.gameRooms.get? roomId = some room)
    (hinput : room'.gameInput.data ⊆ room.gameInput.data)
    (houtput : room'.gameOutput.data ⊆ room.gameOutput.data) : s.QueuesStem roomId room' :=
  ⟨fun _ hclient => stems_of_mem (mem_gameInput.mpr ⟨room, hroom, hinput hclient⟩),
    fun change hchange _ hreturns =>
      stems_of_mem (mem_gameOutput.mpr ⟨room, change, hroom, houtput hchange, hreturns⟩)⟩

/-- Only the clients of the idle room have been touched. -/
theorem stemsAll_of_idle (hrooms : s'.idle.gameRooms = s.idle.gameRooms) (hgames : s'.games = s.games)
    (hidle : ∀ fd client, s'.idle.clientsMap.get? fd = some client → s.Stems (.clientsMap, client)) :
    StemsAll s s' :=
  ⟨hidle, stems_players hgames, fun _ _ hroom =>
    queuesStem (hrooms ▸ hroom) (List.Subset.refl _) (List.Subset.refl _)⟩

private theorem queuesStem_modify {rooms : UnorderedMap Int GameRoom} {roomId : Int} {f : GameRoom → GameRoom}
    (h : ∀ id room, rooms.get? id = some room → s.QueuesStem id room)
    (hf : ∀ room, rooms.get? roomId = some room → s.QueuesStem roomId (f room)) (id : Int)
    (room : GameRoom) (hroom : (rooms.modify roomId f).get? id = some room) :
    s.QueuesStem id room :=
  @forall_rooms_modify (fun id _ room => s.QueuesStem id room) rooms ∅ ∅ roomId f h
    (fun _ _ => rfl) hf id room hroom

/-- Nobody has come to the queues of the rooms, of which one has changed. -/
theorem queuesStem_of_room {roomId : Int} {f : GameRoom → GameRoom}
    (hf : ∀ room, s.idle.gameRooms.get? roomId = some room →
      (f room).gameInput.data ⊆ room.gameInput.data ∧
        (f room).gameOutput.data ⊆ room.gameOutput.data) (id : Int) (room : GameRoom)
    (hroom : (s.idle.gameRooms.modify roomId f).get? id = some room) : s.QueuesStem id room := by
  refine queuesStem_modify (fun id room hroom => ?_) (fun room hroom => ?_) id room hroom
  · exact queuesStem hroom (List.Subset.refl _) (List.Subset.refl _)
  · exact queuesStem hroom (hf room hroom).1 (hf room hroom).2

private theorem queuesStem_of_queues {roomId : Int} {f : GameRoom → GameRoom}
    (hf : ∀ room, (f room).gameInput.data = room.gameInput.data ∧
      (f room).gameOutput.data = room.gameOutput.data) (id : Int) (room : GameRoom)
    (hroom : (s.idle.gameRooms.modify roomId f).get? id = some room) : s.QueuesStem id room := by
  refine queuesStem_of_room (fun room _ => ?_) id room hroom
  rw [(hf room).1, (hf room).2]
  exact ⟨List.Subset.refl _, List.Subset.refl _⟩

/-- The message that is processed next, and what is left of the read. -/
theorem handled_of_message (hstored : s.idle.StoredUnderOwnFd) (h : s.step .message = some s') :
    ∃ clientFd msg messages client newGame, s.pc = .reading clientFd (msg :: messages) ∧
      s.idle.clientsMap.get? clientFd = some client ∧
      Handled s.idle msg clientFd client s'.idle newGame ∧ s'.pc.messages = messages := by
  simp only [step] at h
  split at h
  · rename_i clientFd msg messages hpc
    cases hprocess : s.idle.processClientMessage msg clientFd with
    | error e =>
      rw [hprocess] at h
      cases h
    | ok processed =>
      obtain ⟨idle, newGame⟩ := processed
      obtain ⟨client, hclient, _⟩ := bind_eq_ok.mp hprocess
      rw [derefClient_eq_ok] at hclient
      have hhandled := handled_of_processClientMessage hstored hclient hprocess
      refine ⟨clientFd, msg, messages, client, newGame, hpc, hclient, ?_⟩
      rw [hprocess] at h
      cases newGame with
      | none =>
        cases h
        exact ⟨hhandled, rfl⟩
      | some newGame =>
        obtain ⟨room, _, h⟩ := Option.bind_eq_some_iff.mp h
        obtain ⟨g, _, rfl⟩ := Option.map_eq_some_iff.mp h
        exact ⟨hhandled, rfl⟩
  · cases h

private theorem stems_of_handled {msg : ProtocolData} {clientFd : Int} {client : ProtocolClient}
    {idle : IdleUsersRoom} {newGame : Option NewGame}
    (hfields : BufferedParser.AttributesOk msg.data)
    (hclient : s.idle.clientsMap.get? clientFd = some client)
    (h : Handled s.idle msg clientFd client idle newGame) {fd : Int} {client' : ProtocolClient}
    (hclient' : idle.clientsMap.get? fd = some client') : s.Stems (.clientsMap, client') := by
  cases h with
  | removed => exact stems_idle (client_of_onClientDisconnect hclient').2
  | replied hreply hclients =>
    obtain rfl | hstored := client_of_set hclients hclient'
    · exact stems_of_step (mem_clientsMap.mpr ⟨clientFd, hclient⟩) (.replied hfields hreply)
    · exact stems_idle hstored
  | starts _ hclients => exact stems_idle (hclients ▸ hclient')

/-- A client who is sent to a game leaves the idle room for the input of the
game. -/
theorem stemsAll_sendClient (h : s.Careers) (hstored : s.idle.StoredUnderOwnFd)
    {roomId client clientFd : Int} {clients : List Int} {messages : List ProtocolData}
    {idle : IdleUsersRoom} {pc : IdlePc} (hpc : s.pc = .sending roomId (client :: clients) clientFd messages)
    (hsend : s.idle.sendClientToGameThread roomId client = .ok idle) :
    StemsAll s (s.withIdle pc idle) := by
  obtain ⟨moved, room, hmoved, _, hroom, rfl⟩ := sendClientToGameThread_eq_ok hstored hsend
  have hname : moved.hasName = true :=
    h.leaving client (by rw [hpc]; exact List.mem_cons_self) moved hmoved
  refine ⟨fun fd client' hclient' => stems_idle (client_of_erase rfl hclient'), stems_players rfl, ?_⟩
  refine queuesStem_modify (fun id room hroom => ?_) fun room hroom => ?_
  · exact queuesStem hroom (List.Subset.refl _) (List.Subset.refl _)
  · have hbefore := queuesStem hroom (List.Subset.refl _) (List.Subset.refl _)
    refine ⟨fun client' hclient' => ?_, hbefore.output⟩
    rcases List.mem_append.mp hclient' with hin | hnew
    · exact hbefore.input client' hin
    · cases List.mem_singleton.mp hnew
      exact stems_of_step (mem_clientsMap.mpr ⟨client, hmoved⟩) (.sent hname)

/-- Those who return with a change come to the idle room. -/
theorem stemsAll_applyStateChange {roomId : Int} {room : GameRoom} {change : GameStateChange}
    {data : List GameStateChange} {idle : IdleUsersRoom} {pc : IdlePc}
    (hroom : s.idle.gameRooms.get? roomId = some room) (hdata : room.gameOutput.data = change :: data)
    (happly : (s.idle.modifyRoom roomId
      (GameRoom.withOutput { room.gameOutput with data := data })).applyStateChange roomId change =
        .ok idle) : StemsAll s (s.withIdle pc idle) := by
  obtain ⟨f, hrooms, hf⟩ := gameRooms_applyStateChange happly
  rw [modifyRoom, UnorderedMap.modify_modify] at hrooms
  refine ⟨fun fd client hclient => ?_, stems_players rfl,
    fun id room' hroom' => queuesStem_of_room (fun room' hroom' => ?_) id room' (hrooms ▸ hroom')⟩
  · obtain ⟨c, hreturns, rfl⟩ | hstored := client_of_applyStateChange happly hclient
    · refine stems_of_step (mem_gameOutput.mpr ⟨room, change, hroom, ?_, hreturns⟩) .welcomed
      rw [hdata]
      exact List.mem_cons_self
    · exact stems_idle hstored
  · cases hroom.symm.trans hroom'
    rw [Function.comp_apply, (hf _).1, (hf _).2]
    refine ⟨List.Subset.refl _, ?_⟩
    rw [hdata]
    exact List.subset_cons_self _ _

/-- A game takes clients from its input, treats its players and returns them. -/
theorem stemsAll_game {roomId : Int} {action : GameAction} {room : GameRoom}
    {stored t' : GameThread} (hown : action.isOwn = true)
    (hroom : s.idle.gameRooms.get? roomId = some room) (hstored : s.games.get? roomId = some stored)
    (hgo : (stored.withQueues room).step action = some t') :
    StemsAll s (s.withThread roomId (stored.withQueues room) t') := by
  have hhandover := GameThread.handover_step hown hgo
  refine ⟨fun fd client (hclient : s.idle.clientsMap.get? fd = some client) => stems_idle hclient,
    fun id t ref client ht hplayer => ?_, ?_⟩
  · by_cases hid : id = roomId
    · subst hid
      change (if t'.pc = .finished then s.games.erase id else s.games.set id t').get? id = some t at ht
      split at ht
      · rw [UnorderedMap.get?_erase_self] at ht
        cases ht
      · rw [UnorderedMap.get?_set_self] at ht
        cases ht
        obtain ⟨before, hbefore, htreats⟩ := GameThread.admitted_step hown hgo ref client hplayer
        rcases hbefore with hplays | hwaits
        · exact .inr ⟨_, before, mem_player.mpr ⟨stored, hstored, hplays⟩, .plays htreats⟩
        · exact .inr ⟨_, before, mem_gameInput.mpr ⟨room, hroom, hwaits⟩, .joins htreats⟩
    · rw [games_of_ne rfl hid] at ht
      exact stems_players rfl id t ref client ht hplayer
  · refine queuesStem_modify (fun id room hroom => ?_) fun room' hroom' => ?_
    · exact queuesStem hroom (List.Subset.refl _) (List.Subset.refl _)
    · cases hroom.symm.trans hroom'
      have hbefore := queuesStem hroom (List.Subset.refl _) (List.Subset.refl _)
      refine ⟨fun client hclient => hbefore.input client (hhandover.input.subset hclient), ?_⟩
      rcases hhandover.output with ⟨_, k, houtput⟩ | ⟨_, rfl⟩
      · intro change hchange client hreturns
        have hchange : change ∈ t'.game.gameOutput.data := hchange
        rw [houtput] at hchange
        rcases List.mem_append.mp hchange with hold | hpause
        · exact hbefore.output change hold client hreturns
        · cases List.eq_of_mem_replicate hpause
          exact absurd hreturns (by simp)
      · intro change hchange client hreturns
        rcases List.mem_append.mp hchange with hold | hend
        · exact hbefore.output change hold client hreturns
        · cases List.mem_singleton.mp hend
          obtain ⟨ref, hplays⟩ : ∃ ref, (stored.game.player ref).client = some client :=
            hreturns.elim (fun h => ⟨.player1, h⟩) fun h => ⟨.player2, h⟩
          exact stems_of_step (mem_player.mpr ⟨stored, hstored, hplays⟩) .returned

theorem stemsAll_of_step (h : s.Careers) (hstored : s.idle.StoredUnderOwnFd)
    (hstep : s.step action = some s') : StemsAll s s' := by
  cases effect_of_step hstored hstep with
  | accept _ heq | handlerDone _ heq | newClientEvent heq =>
    subst heq
    exact stemsAll_of_idle rfl rfl fun _ _ (hclient : s.idle.clientsMap.get? _ = some _) =>
      stems_idle hclient
  | addNewClient _ hadmits heq =>
    obtain ⟨clientFd, data, hdata, hadd, _⟩ := addNewClient_of_step hstep
    subst heq
    refine stemsAll_of_idle hadmits.gameRooms rfl fun fd client hclient => ?_
    obtain rfl | hbefore := client_of_addNewClient hadd hclient
    · exact .inl ⟨clientFd, by rw [hdata]; exact List.mem_cons_self, rfl⟩
    · exact stems_idle hbefore
  | receive hreceive heq =>
    subst heq
    refine stemsAll_of_idle (admits_receiveMessages hreceive).gameRooms rfl fun fd client hclient => ?_
    obtain hbefore | ⟨before, data, parsed, parser, hbefore, hparse, rfl⟩ :=
      client_of_receiveMessages hreceive hclient
    · exact stems_idle hbefore
    · exact stems_of_step (mem_clientsMap.mpr ⟨_, hbefore⟩) (.parsed hparse)
  | answer _ _ hanswer heq =>
    obtain ⟨clientFd, msg, messages, client, newGame, hpc, hclient, hhandled, _⟩ :=
      handled_of_message hstored hstep
    subst heq
    have hfields := h.messages msg (by rw [hpc]; exact List.mem_cons_self)
    exact stemsAll_of_idle (admits_answer hanswer).gameRooms rfl fun _ _ =>
      stems_of_handled hfields hclient hhandled
  | @startGame clientFd client2 roomId _ _ _ idle room g _ _ _ hroom hidle hnew hstart heq =>
    obtain ⟨epoll, usernameA, usernameB, hidle'⟩ := newGameThread_eq_ok hnew
    subst heq
    subst hidle'
    refine ⟨fun _ _ (hclient : s.idle.clientsMap.get? _ = some _) => stems_idle hclient,
      fun id t ref client ht hplayer => ?_, ?_⟩
    · change (s.games.set roomId { game := g }).get? id = some t at ht
      rw [UnorderedMap.get?_set] at ht
      split at ht
      · cases ht
        obtain ⟨_, rfl⟩ := Game.start_eq_ok hstart
        cases ref <;> cases hplayer
      · exact stems_players rfl id t ref client ht hplayer
    · exact queuesStem_of_queues fun _ => ⟨rfl, rfl⟩
  | sendClient hpc hsend heq =>
    subst heq
    exact stemsAll_sendClient h hstored hpc hsend
  | disconnect heq =>
    subst heq
    exact stemsAll_of_idle (admits_onClientDisconnect s.idle _).gameRooms rfl fun _ _ hclient =>
      stems_idle (client_of_onClientDisconnect hclient).2
  | stateChangeEvent heq =>
    subst heq
    exact ⟨fun _ _ (hclient : s.idle.clientsMap.get? _ = some _) => stems_idle hclient,
      stems_players rfl, queuesStem_of_queues fun _ => ⟨rfl, rfl⟩⟩
  | applyStateChange hroom hdata happly heq =>
    subst heq
    exact stemsAll_applyStateChange hroom hdata happly
  | game hown hroom hgame hgo heq =>
    subst heq
    exact stemsAll_game hown hroom hgame hgo

theorem Careers.reachable (h : s.Careers) {c' : Place × ProtocolClient} (hstems : s.Stems c') :
    Career.system.Reachable c' := by
  obtain ⟨clientFd, _, rfl⟩ | ⟨place, client, hclient, hturn⟩ := hstems
  · exact .init ⟨clientFd, rfl⟩
  · exact Career.reachable_of_steps (h.clients place client hclient) hturn.steps

/-- The messages that are left of a read are those of the read, or some that were
left before. -/
theorem messages_step (h : s.Careers) (hstored : s.idle.StoredUnderOwnFd)
    (hstep : s.step action = some s') : ∀ msg ∈ s'.pc.messages, BufferedParser.AttributesOk msg.data := by
  cases effect_of_step hstored hstep with
  | accept _ heq | game _ _ _ _ heq =>
    subst heq
    exact h.messages
  | handlerDone _ heq | newClientEvent heq | addNewClient _ _ heq | disconnect heq
  | stateChangeEvent heq | applyStateChange _ _ _ heq =>
    subst heq
    exact fun _ hmsg => nomatch hmsg
  | receive hreceive heq =>
    subst heq
    refine attributesOk_of_receiveMessages (fun client hclient => ?_) hreceive
    exact Career.cacheOk_of_reachable (h.clients _ client (mem_clientsMap.mpr ⟨_, hclient⟩))
  | answer | startGame =>
    obtain ⟨clientFd, msg, messages, client, newGame, hpc, _, _, hmessages⟩ :=
      handled_of_message hstored hstep
    rw [hmessages]
    exact fun later hlater => h.messages later (by rw [hpc]; exact List.mem_cons_of_mem _ hlater)
  | @sendClient roomId client clientFd clients messages _ hpc _ heq =>
    subst heq
    have hsame : (afterSend roomId clients clientFd messages).messages = s.pc.messages := by
      rw [hpc, afterSend]
      split <;> rfl
    change ∀ msg ∈ (afterSend roomId clients clientFd messages).messages, _
    rw [hsame]
    exact h.messages

/-- A game is started for clients with names. -/
theorem hasName_of_answer {idle idle' : IdleUsersRoom} {leaving : List Int} {msg : ProtocolData}
    {clientFd : Int} {client : ProtocolClient} {newGame : NewGame} (h : idle.WaitingOk leaving)
    (hclient : idle.clientsMap.get? clientFd = some client)
    (hanswer : Answer idle msg clientFd client idle' (some newGame)) :
    ∀ fd ∈ [newGame.client1, newGame.client2], ∀ client',
      idle'.clientsMap.get? fd = some client' → client'.hasName = true := by
  cases hanswer with
  | @starts gameId client2 _ _ hname _ _ hwaiting hnew =>
    obtain ⟨_, _, _, rfl⟩ := newGameThread_eq_ok hnew
    obtain ⟨player2, hplayer2, hname2⟩ := h.named client2 gameId (waitingClient_eq_some hwaiting)
    intro fd hfd client' hclient'
    change idle.clientsMap.get? fd = some client' at hclient'
    simp only [List.mem_cons, List.not_mem_nil, or_false] at hfd
    obtain rfl | rfl := hfd
    · cases hclient.symm.trans hclient'
      exact hname
    · cases hplayer2.symm.trans hclient'
      exact hname2

theorem leaving_afterSend (roomId : Int) (clients : List Int) (clientFd : Int)
    (messages : List ProtocolData) : (afterSend roomId clients clientFd messages).leaving = clients := by
  rw [afterSend]
  split
  · rename_i hnone
    rw [hnone]
    rfl
  · rfl

theorem leavingNamed_step (h : s.Careers) (hreach : system.Reachable s)
    (hstep : s.step action = some s') : ∀ fd ∈ s'.pc.leaving, ∀ client,
      s'.idle.clientsMap.get? fd = some client → client.hasName = true := by
  have hstored := (invariant_of_reachable hreach).stored
  cases effect_of_step hstored hstep with
  | accept _ heq | game _ _ _ _ heq =>
    subst heq
    exact h.leaving
  | handlerDone _ heq | newClientEvent heq | addNewClient _ _ heq | disconnect heq
  | stateChangeEvent heq | applyStateChange _ _ _ heq | receive _ heq | answer _ _ _ heq =>
    subst heq
    exact fun _ hfd => nomatch hfd
  | startGame =>
    obtain ⟨clientFd, msg, messages, client, newGame, hclient, hanswer, hpc⟩ :=
      answer_of_message hstored hstep
    rw [hpc]
    cases newGame with
    | none => exact fun _ hfd => nomatch hfd
    | some newGame => exact hasName_of_answer (tables_of_reachable hreach).waiting hclient hanswer
  | @sendClient roomId client clientFd clients messages _ hpc hsend heq =>
    subst heq
    obtain ⟨moved, room, _, _, _, rfl⟩ := sendClientToGameThread_eq_ok hstored hsend
    change ∀ fd ∈ (afterSend roomId clients clientFd messages).leaving, _
    rw [leaving_afterSend]
    intro fd hfd client' hclient'
    exact h.leaving fd (by rw [hpc]; exact List.mem_cons_of_mem _ hfd) client'
      (client_of_erase rfl hclient')

theorem Careers.step (hreach : system.Reachable s) (h : s.Careers) (hstep : s.step action = some s') :
    s'.Careers :=
  have hstored := (invariant_of_reachable hreach).stored
  ⟨fun _ _ hclient => h.reachable ((stemsAll_of_step h hstored hstep).stems hclient),
    messages_step h hstored hstep, leavingNamed_step h hreach hstep⟩

/-- The socket of a connected client is open. -/
theorem clientFd_mem_sockets (h : s.Invariant) {place : Place} {client : ProtocolClient}
    (hclient : client ∈ s.clientsAt place) : client.clientFd ∈ s.sockets := by
  have hplace : place ∈ s.places := by
    by_contra hnot
    rw [clientsAt_of_notMem hnot] at hclient
    exact Multiset.notMem_zero _ hclient
  have hfd : client.clientFd ∈ s.fdsAt place := by
    cases place with
    | newClientsQueue => exact (Multiset.notMem_zero _ hclient).elim
    | _ => exact Multiset.mem_map_of_mem _ hclient
  rw [← Finset.mem_val, ← h.sockets]
  exact Multiset.mem_bind.mpr ⟨place, hplace, hfd⟩

theorem careers_init (h : system.init s) : s.Careers := by
  have hinvariant := invariant_init h
  obtain ⟨_, _, _, _, _, _, _, hpc, _, hsockets⟩ := h
  refine ⟨fun place client hclient => ?_, ?_, ?_⟩
  · have hopen := clientFd_mem_sockets hinvariant hclient
    rw [hsockets] at hopen
    exact (Finset.notMem_empty _ hopen).elim
  · rw [hpc]
    exact fun _ hmsg => nomatch hmsg
  · rw [hpc]
    exact fun _ hfd => nomatch hfd

/-- Whatever the threads do, every connected client lives as a single client
does. -/
theorem careers_of_reachable (h : system.Reachable s) : s.Careers :=
  h.invariant (fun _ => careers_init) fun _ _ _ hreach hcareers hstep => hcareers.step hreach hstep

/-- Along every run each step moves every client by steps of his own life: whoever
is connected after it has just been let in, or is a client from before who has
gone on, and whoever is connected in the end has lived as a single client does. -/
theorem simulates_of_run {steps : List (Server × ServerAction × Server)} (h : system.Run steps s) :
    (∀ t ∈ steps, ∀ place' client', client' ∈ t.2.2.clientsAt place' →
      Career.system.init (place', client') ∨
        ∃ place client, client ∈ t.1.clientsAt place ∧ Career.Continues client client' ∧
          ReflTransGen Career.Step (place, client) (place', client')) ∧
      ∀ place client, client ∈ s.clientsAt place → Career.system.Reachable (place, client) := by
  refine ⟨fun t ht place' client' hclient' => ?_, (careers_of_reachable h.reachable).clients⟩
  obtain ⟨hreach, hstep⟩ := h.forall_reachable t ht
  have hstored := (invariant_of_reachable hreach).stored
  have hstems := (stemsAll_of_step (careers_of_reachable hreach) hstored hstep).stems hclient'
  obtain ⟨clientFd, _, hinit⟩ | ⟨place, client, hclient, hturn⟩ := hstems
  · exact .inl ⟨clientFd, hinit⟩
  · exact .inr ⟨place, client, hclient, Career.continues_of_steps hturn.steps, hturn.steps⟩

/-- Two clients come to a game. -/
theorem simulates_of_run_sent : ∃ steps s, system.Run steps s ∧ s.thread 1 ≠ none ∧
    ∀ place client, client ∈ s.clientsAt place → Career.system.Reachable (place, client) := by
  obtain ⟨steps, s, hrun, hthread⟩ := exists_run_sent
  exact ⟨steps, s, hrun, hthread, (simulates_of_run hrun).2⟩

/-- What a step has sent to a client who is connected after it fits where he is: he
has just been let in, or he was somewhere before. -/
inductive SendsTo (s : Server) : Place × ProtocolClient → Prop where
  | letIn {clientFd : Int} (h : clientFd ∈ s.idle.newClientsQueue.data) :
      SendsTo s (.clientsMap, Career.connected clientFd)
  | goesOn {place place' : Place} {client client' : ProtocolClient} {messages : List ProtocolData}
      (hclient : client ∈ s.clientsAt place) (hfd : client'.clientFd = client.clientFd)
      (hsent : client'.sent = client.sent ++ messages)
      (hsends : ∀ msg ∈ messages, Career.Sends place place' msg.method) :
      SendsTo s (place', client')

theorem Stems.sendsTo {c' : Place × ProtocolClient} (h : s.Stems c') : s.SendsTo c' := by
  obtain ⟨clientFd, hqueue, rfl⟩ | ⟨place, client, hclient, hturn⟩ := h
  · exact .letIn hqueue
  · obtain ⟨messages, hsent, hsends⟩ := hturn.sends
    exact .goesOn hclient (Career.continues_of_steps hturn.steps).clientFd hsent hsends

/-- Whatever the threads do, what a connected client has been sent is the beginning
of a session, in which he is as he is on the server: greeted first, named or not,
denied as often, and told of a game only where one can be. And every message
fits the places at which he was and is when it is sent: he is greeted again only
on his way back from a game. -/
theorem inSession_of_run {steps : List (Server × ServerAction × Server)} (h : system.Run steps s) :
    (∀ place client, client ∈ s.clientsAt place →
        ∃ session, Career.InSession (place, client) session) ∧
      ∀ t ∈ steps, ∀ place client, client ∈ t.2.2.clientsAt place → t.1.SendsTo (place, client) := by
  refine ⟨fun place client hclient => ?_, fun t ht place client hclient => ?_⟩
  · exact Career.exists_inSession ((careers_of_reachable h.reachable).clients place client hclient)
  · obtain ⟨hreach, hstep⟩ := h.forall_reachable t ht
    have hstored := (invariant_of_reachable hreach).stored
    exact ((stemsAll_of_step (careers_of_reachable hreach) hstored hstep).stems hclient).sendsTo

/-- A client has played, and is greeted again. -/
theorem inSession_of_run_left : ∃ steps s client session, system.Run steps s ∧
    s.idle.clientsMap.get? 10 = some client ∧
    (client.sent.filter fun msg => msg.method = .CONNECTED_OK).length = 2 ∧
    Career.InSession (.clientsMap, client) session ∧
    ∀ t ∈ steps, ∀ place client, client ∈ t.2.2.clientsAt place → t.1.SendsTo (place, client) := by
  have hcheck : ((oneRoom.bind (TransitionSystem.runActions step leaveGameOfTwo)).any fun s =>
      (s.idle.clientsMap.get? 10).any fun client =>
        decide ((client.sent.filter fun msg => msg.method = .CONNECTED_OK).length = 2)) = true := by
    decide +kernel
  obtain ⟨s, hreachable, hstate⟩ := exists_of_oneRoom hcheck
  obtain ⟨client, hclient, hgreeted⟩ := (Option.any_eq_true ..).mp hstate
  obtain ⟨steps, hrun⟩ := hreachable.exists_run
  obtain ⟨hsessions, hsends⟩ := inSession_of_run hrun
  obtain ⟨session, hsession⟩ := hsessions _ client (mem_clientsMap.mpr ⟨10, hclient⟩)
  exact ⟨steps, s, client, session, hrun, hclient, of_decide_eq_true hgreeted, hsession, hsends⟩

end Server

end UpsServer
