import UpsServer.GameServer.Simulation
import UpsServer.GameServer.LostMessages

open Split

namespace UpsServer

namespace IdleUsersRoom

/-- What the idle room replies to a request when the client stays. -/
inductive Answers (msg : ProtocolData) : ProtocolData → Prop where
  | denied : Answers msg (newProtocolMessage .REQ_DENIED [])
  | named {username : Str} (hmethod : msg.method = .ENTER_USERNAME)
      (husername : msg.data.get? "username".toList = some username) :
      Answers msg (newProtocolMessage .REQ_ACCEPTED [])
  | listed {roomList : Str} (hmethod : msg.method = .GET_ROOM_LIST) :
      Answers msg ⟨.REQ_ACCEPTED, (∅ : UnorderedMap Str Str).set "room_list".toList roomList⟩
  | waits (hmethod : msg.method = .JOIN_GAME) : Answers msg (newProtocolMessage .GAME_IDLE [])

theorem Reply.exists_answer {msg : ProtocolData} {client client' : ProtocolClient}
    (h : Reply msg client client') :
    client'.parser = client.parser ∧
      ∃ reply, Answers msg reply ∧ client'.sent = client.sent ++ [reply] := by
  cases h with
  | denied => exact ⟨rfl, _, .denied, rfl⟩
  | named hmethod husername => exact ⟨rfl, _, .named hmethod husername, rfl⟩
  | listed hmethod => exact ⟨rfl, _, .listed hmethod, rfl⟩
  | waits hmethod => exact ⟨rfl, _, .waits hmethod, rfl⟩

end IdleUsersRoom

/-- The messages of a client that have been read and are still to be processed. -/
def IdlePc.messagesOf (clientFd : Int) : IdlePc → List ProtocolData
  | .reading fd messages | .sending _ _ fd messages => if fd = clientFd then messages else []
  | _ => []

/-- What a client of the idle room has said since he was let in: the chunks in which
he was read, and the messages in them that have been processed. -/
structure Dialogue where
  first : ProtocolClient
  chunks : List Str := []
  requests : List ProtocolData := []

namespace Dialogue

/-- A step of the server goes on with the dialogue of a client. -/
def goOn (clientFd : Int) (pc : IdlePc) (action : ServerAction) (d : Dialogue) : Dialogue :=
  match action, pc with
  | .receive fd (some data), _ =>
    if fd = clientFd then { d with chunks := d.chunks ++ [data] } else d
  | .message, .reading fd (msg :: _) =>
    if fd = clientFd then { d with requests := d.requests ++ [msg] } else d
  | _, _ => d

/-- A dialogue begins when a client comes to the idle room, and ends when he
leaves. -/
def next (clientFd : Int) (d : Option Dialogue) (step : Server × ServerAction × Server) :
    Option Dialogue :=
  (step.2.2.idle.clientsMap.get? clientFd).map fun client =>
    d.elim { first := client } (goOn clientFd step.1.pc step.2.1)

/-- The dialogue with a client after a run. -/
def ofRun (clientFd : Int) (steps : List (Server × ServerAction × Server)) : Option Dialogue :=
  steps.foldl (next clientFd) none

/-- The dialogue is up to date with the client: what was read of him has been
processed or still is to be, and what was processed has been answered. -/
structure Fits (clientFd : Int) (pc : IdlePc) (client : ProtocolClient) (d : Dialogue) : Prop where
  read : BufferedParser.feed d.first.parser d.chunks =
    .ok (d.requests ++ pc.messagesOf clientFd, client.parser)
  answered : ∃ replies, client.sent = d.first.sent ++ replies ∧
    List.Forall₂ IdleUsersRoom.Answers d.requests replies

end Dialogue

namespace BufferedParser

/-- One more chunk at the end. -/
theorem feed_append {p p' p'' : BufferedParser} {chunks : List Str} {messages : List ProtocolData}
    {data : Str} {more : Option (List ProtocolData)} (h : feed p chunks = .ok (messages, p'))
    (hparse : p'.parse data = .ok (more, p'')) :
    feed p (chunks ++ [data]) = .ok (messages ++ more.getD [], p'') := by
  induction chunks generalizing p messages with
  | nil =>
    cases h
    rw [List.nil_append, feed_cons_of_parse hparse, List.nil_append]
    exact congrArg (fun out => Except.ok (out, p'')) (List.append_nil _)
  | cons chunk chunks ih =>
    obtain ⟨⟨out, next⟩, hchunk, h⟩ := bind_eq_ok.mp h
    obtain ⟨⟨later, last⟩, hrest, h⟩ := bind_eq_ok.mp h
    cases h
    rw [List.cons_append, feed_cons_of_parse hchunk, ih hrest, List.append_assoc]
    rfl

end BufferedParser

namespace Server

open IdleUsersRoom

variable {s s' : Server} {action : ServerAction} {clientFd : Int} {client' : ProtocolClient}

/-- Nobody is being read while the other handlers run. -/
theorem messagesOf_of_step (h : s.step action = some s') (hidle : action.reachesGame = false)
    (haccept : ∀ clientFd, action ≠ .accept clientFd) (hmessage : action ≠ .message)
    (clientFd : Int) : s.pc.messagesOf clientFd = [] := by
  cases hpc : s.pc with
  | sending roomId clients fd messages =>
    cases action with
    | accept fd' => exact (haccept fd' rfl).elim
    | sendClient | game => cases hidle
    | newClientEvent | addNewClient | newClientsDone | receive | message | readDone | disconnect
    | stateChangeEvent | applyStateChange | stateChangesDone => simp [step, hpc] at h
  | reading fd messages =>
    cases action with
    | accept fd' => exact (haccept fd' rfl).elim
    | sendClient | game => cases hidle
    | message => exact (hmessage rfl).elim
    | readDone =>
      cases messages with
      | nil => exact ite_self _
      | cons => simp [step, hpc] at h
    | newClientEvent | addNewClient | newClientsDone | receive | disconnect | stateChangeEvent
    | applyStateChange | stateChangesDone => simp [step, hpc] at h
  | waiting | collecting | changing => rfl

/-- A client has just been let in: for the first time, or because he returns from a
game. -/
def Welcomed (clientFd : Int) (client : ProtocolClient) : Prop :=
  client = Career.connected clientFd ∨ ∃ back : ProtocolClient, back.hasName = true ∧
    client = back.sendMsg (newProtocolMessage .CONNECTED_OK [])

/-- What a step means to a client who is in the idle room after it and stays there:
he comes to it, is read, is answered, or is left alone. -/
inductive TalkStep (s : Server) (action : ServerAction) (s' : Server) (clientFd : Int)
    (client' : ProtocolClient) : Prop where
  | comes (hnew : s.idle.clientsMap.get? clientFd = none)
      (hmessages : s'.pc.messagesOf clientFd = [])
      (hfirst : Welcomed clientFd client')
  | read {client : ProtocolClient} {data : Str} {messages : Option (List ProtocolData)}
      {parser : BufferedParser} (hbefore : s.idle.clientsMap.get? clientFd = some client)
      (hstays : clientFd ∉ s.pc.leaving) (haction : action = .receive clientFd (some data))
      (hidle : s.pc.messagesOf clientFd = [])
      (hparse : client.parser.parse data = .ok (messages, parser))
      (hmessages : s'.pc.messagesOf clientFd = messages.getD [])
      (heq : client' = { client with parser := parser })
  | answered {client : ProtocolClient} {msg : ProtocolData} {messages : List ProtocolData}
      (hbefore : s.idle.clientsMap.get? clientFd = some client)
      (hstays : clientFd ∉ s.pc.leaving) (haction : action = .message)
      (hpc : s.pc = .reading clientFd (msg :: messages))
      (hmessages : s'.pc.messagesOf clientFd = messages) (hreply : Reply msg client client')
  | waits (hbefore : s.idle.clientsMap.get? clientFd = some client')
      (hstays : clientFd ∉ s.pc.leaving)
      (hmessages : s'.pc.messagesOf clientFd = s.pc.messagesOf clientFd)
      (hgoes : ∀ d : Dialogue, d.goOn clientFd s.pc action = d)

theorem talkStep_waits
    (hclients : s'.idle.clientsMap.get? clientFd = s.idle.clientsMap.get? clientFd)
    (hpc : s'.pc = s.pc) (hgoes : ∀ d : Dialogue, d.goOn clientFd s.pc action = d)
    (hclient' : s'.idle.clientsMap.get? clientFd = some client')
    (hstays : clientFd ∉ s'.pc.leaving) : TalkStep s action s' clientFd client' :=
  .waits (hclients.symm.trans hclient') (hpc ▸ hstays) (by rw [hpc]) hgoes

/-- A client is left alone by the handlers of others. -/
theorem talkStep_between (hstep : s.step action = some s') (hidle : action.reachesGame = false)
    (haccept : ∀ clientFd, action ≠ .accept clientFd) (hmessage : action ≠ .message)
    (hgoes : ∀ d : Dialogue, d.goOn clientFd s.pc action = d)
    (hmessages : s'.pc.messagesOf clientFd = [])
    (hbefore : s.idle.clientsMap.get? clientFd = some client') :
    TalkStep s action s' clientFd client' := by
  refine .waits hbefore ?_ ?_ hgoes
  · rw [leaving_of_step hstep hidle haccept]
    exact List.not_mem_nil
  · rw [hmessages, messagesOf_of_step hstep hidle haccept hmessage]

theorem talkStep_receive (hstored : s.idle.StoredUnderOwnFd) {fd : Int} {received : Option Str}
    {messages : List ProtocolData} {idle : IdleUsersRoom}
    (hstep : s.step (.receive fd received) = some s')
    (hreceive : s.idle.receiveMessages fd received = .ok (messages, idle))
    (hidle : s'.idle = idle) (hpc : s'.pc = .reading fd messages)
    (hclient' : s'.idle.clientsMap.get? clientFd = some client') :
    TalkStep s (.receive fd received) s' clientFd client' := by
  have hleaving : s.pc.leaving = [] := leaving_of_step hstep rfl (by simp)
  have hmessages : s.pc.messagesOf clientFd = [] :=
    messagesOf_of_step hstep rfl (by simp) (by simp) clientFd
  have hother : fd ≠ clientFd → s.idle.clientsMap.get? clientFd = some client' →
      TalkStep s (.receive fd received) s' clientFd client' := by
    intro hne hbefore
    refine .waits hbefore (by simp [hleaving]) ?_ fun d => ?_
    · rw [hpc, hmessages, IdlePc.messagesOf, if_neg hne]
    · cases received with
      | none => rfl
      | some data => exact if_neg hne
  rw [hidle] at hclient'
  obtain ⟨client, hclient, hrest⟩ := bind_eq_ok.mp hreceive
  rw [clientAt_eq_ok] at hclient
  split at hrest
  · cases hrest
    obtain ⟨hne, hbefore⟩ := client_of_onClientDisconnect hclient'
    rw [hstored fd client hclient] at hne
    exact hother (Ne.symm hne) hbefore
  · rename_i parsed hreads
    cases hrest
    obtain ⟨data, parser, rfl, hparse, rfl⟩ := ProtocolClient.parse_of_receiveMsg hreads
    rw [clientsMap_modifyClient hclient, UnorderedMap.get?_set] at hclient'
    split at hclient'
    · rename_i heq
      subst heq
      cases hclient'
      refine .read hclient (by simp [hleaving]) rfl hmessages hparse ?_ rfl
      rw [hpc]
      exact if_pos rfl
    · rename_i hne
      exact hother (Ne.symm hne) hclient'

private theorem talkStep_handled {fd : Int} {msg : ProtocolData} {messages : List ProtocolData}
    {client : ProtocolClient} {idle : IdleUsersRoom} (hpc : s.pc = .reading fd (msg :: messages))
    (hclient : s.idle.clientsMap.get? fd = some client)
    (hhandled : Handled s.idle msg fd client idle none)
    (hclient' : idle.clientsMap.get? clientFd = some client') :
    TalkStep s .message (s.withIdle (.reading fd messages) idle) clientFd client' := by
  have hleaving : clientFd ∉ s.pc.leaving := by
    rw [hpc]
    exact List.not_mem_nil
  have hother : clientFd ≠ fd → s.idle.clientsMap.get? clientFd = some client' →
      TalkStep s .message (s.withIdle (.reading fd messages) idle) clientFd client' := by
    intro hne hbefore
    refine .waits hbefore hleaving ?_ fun d => ?_
    · change (if fd = clientFd then messages else []) = _
      rw [hpc, IdlePc.messagesOf, if_neg (Ne.symm hne), if_neg (Ne.symm hne)]
    · rw [hpc]
      exact if_neg (Ne.symm hne)
  cases hhandled with
  | removed =>
    obtain ⟨hne, hbefore⟩ := client_of_onClientDisconnect hclient'
    exact hother hne hbefore
  | replied hreply hclients =>
    rw [hclients, UnorderedMap.get?_set] at hclient'
    split at hclient'
    · rename_i heq
      subst heq
      cases hclient'
      exact .answered hclient hleaving rfl hpc (if_pos rfl) hreply
    · rename_i hne
      exact hother hne hclient'

theorem talkStep_message (hstored : s.idle.StoredUnderOwnFd) (hstep : s.step .message = some s')
    (hclient' : s'.idle.clientsMap.get? clientFd = some client')
    (hstays : clientFd ∉ s'.pc.leaving) : TalkStep s .message s' clientFd client' := by
  simp only [step] at hstep
  split at hstep
  · rename_i fd msg messages hpc
    cases hprocess : s.idle.processClientMessage msg fd with
    | error e =>
      rw [hprocess] at hstep
      cases hstep
    | ok processed =>
      obtain ⟨idle, newGame⟩ := processed
      obtain ⟨client, hclient, hanswer⟩ := answer_of_processClientMessage hstored hprocess
      have hhandled := handled_of_processClientMessage hstored hclient hprocess
      rw [hprocess] at hstep
      cases newGame with
      | none =>
        cases hstep
        exact talkStep_handled hpc hclient hhandled hclient'
      | some newGame =>
        cases hanswer with
        | starts _ _ _ _ _ hnew =>
          obtain ⟨room, g, _, _, rfl⟩ := startGame_eq_some hnew hstep
          obtain ⟨_, _, _, rfl⟩ := newGameThread_eq_ok hnew
          have hne : fd ≠ clientFd := by
            rintro rfl
            exact hstays List.mem_cons_self
          refine .waits hclient' ?_ ?_ fun d => ?_
          · rw [hpc]
            exact List.not_mem_nil
          · change (if fd = clientFd then messages else []) = _
            rw [hpc, IdlePc.messagesOf, if_neg hne, if_neg hne]
          · rw [hpc]
            exact if_neg hne
  · cases hstep

/-- Whoever returns from a game is not in the idle room yet. -/
theorem stranger_of_output (h : s.Invariant) {roomId : Int} {client back : ProtocolClient}
    (hback : back ∈ s.clientsAt (.gameOutput roomId)) :
    s.idle.clientsMap.get? back.clientFd ≠ some client := by
  intro hclient
  have hidle : back.clientFd ∈ s.fdsAt .clientsMap :=
    Multiset.mem_map.mpr ⟨client, mem_clientsMap.mpr ⟨_, hclient⟩, h.stored _ _ hclient⟩
  have houtput : back.clientFd ∈ s.fdsAt (.gameOutput roomId) := Multiset.mem_map_of_mem _ hback
  have hheld : back.clientFd ∈ s.heldFds := by
    rw [h.sockets]
    exact clientFd_mem_sockets h hback
  have hnodup : s.heldFds.Nodup := h.sockets ▸ s.sockets.nodup
  obtain ⟨place, honce⟩ := Custody.exists_heldOnceAt hnodup (fun _ => fdsAt_of_notMem) hheld
  cases (honce.eq hidle).trans (honce.eq houtput).symm

private theorem talkStep_addNewClient (hinvariant : s.Invariant) (hstep : s.step .addNewClient = some s')
    (hclient' : s'.idle.clientsMap.get? clientFd = some client') :
    TalkStep s .addNewClient s' clientFd client' := by
  obtain ⟨fd, data, hdata, hadd, hpc⟩ := addNewClient_of_step hstep
  have hmessages : s'.pc.messagesOf clientFd = [] := by rw [hpc]; rfl
  have hstored' := (admits_addNewClient hadd).stored hinvariant.stored
  obtain rfl | hbefore := client_of_addNewClient hadd hclient'
  · obtain rfl : fd = clientFd := hstored' _ _ hclient'
    exact .comes (hinvariant.stranger hdata).1 hmessages (.inl rfl)
  · exact talkStep_between hstep rfl (by simp) (by simp) (fun _ => rfl) hmessages hbefore

private theorem talkStep_applyStateChange (hreach : system.Reachable s) {roomId : Int} {room : GameRoom}
    {change : GameStateChange} {data : List GameStateChange} {idle : IdleUsersRoom}
    (hstep : s.step .applyStateChange = some s')
    (hroom : s.idle.gameRooms.get? roomId = some room)
    (hdata : room.gameOutput.data = change :: data)
    (happly : (s.idle.modifyRoom roomId
      (GameRoom.withOutput { room.gameOutput with data := data })).applyStateChange roomId change =
        .ok idle) (hidle : s'.idle = idle) (hpc : s'.pc = .changing roomId)
    (hstored' : s'.idle.StoredUnderOwnFd)
    (hclient' : s'.idle.clientsMap.get? clientFd = some client') :
    TalkStep s .applyStateChange s' clientFd client' := by
  have hmessages : s'.pc.messagesOf clientFd = [] := by rw [hpc]; rfl
  have hfd := hstored' _ _ hclient'
  rw [hidle] at hclient'
  obtain ⟨back, hreturns, rfl⟩ | hbefore := client_of_applyStateChange happly hclient'
  · have hback : back ∈ s.clientsAt (.gameOutput roomId) := by
      refine mem_gameOutput.mpr ⟨room, change, hroom, ?_, hreturns⟩
      rw [hdata]
      exact List.mem_cons_self
    obtain rfl : back.clientFd = clientFd := hfd
    obtain ⟨session, hsession⟩ :=
      Career.exists_inSession ((careers_of_reachable hreach).clients _ back hback)
    refine .comes (Option.eq_none_iff_forall_ne_some.mpr fun client => ?_) hmessages
      (.inr ⟨back, hsession.hasName (by simp), rfl⟩)
    exact stranger_of_output (invariant_of_reachable hreach) hback
  · exact talkStep_between hstep rfl (by simp) (by simp) (fun _ => rfl) hmessages hbefore

private theorem talkStep_sendClient (hstored : s.idle.StoredUnderOwnFd) {roomId fd readFd : Int}
    {clients : List Int} {messages : List ProtocolData} {idle : IdleUsersRoom}
    (hpc : s.pc = .sending roomId (fd :: clients) readFd messages)
    (hsend : s.idle.sendClientToGameThread roomId fd = .ok idle)
    (hclient' : idle.clientsMap.get? clientFd = some client')
    (hstays : clientFd ∉ (afterSend roomId clients readFd messages).leaving) :
    TalkStep s .sendClient (s.withIdle (afterSend roomId clients readFd messages) idle) clientFd
      client' := by
  obtain ⟨_, _, _, _, _, rfl⟩ := sendClientToGameThread_eq_ok hstored hsend
  change (s.idle.clientsMap.erase fd).get? clientFd = some client' at hclient'
  rw [UnorderedMap.get?_erase] at hclient'
  obtain ⟨hne, hbefore⟩ := Option.ite_none_left_eq_some.mp hclient'
  rw [leaving_afterSend] at hstays
  refine .waits hbefore ?_ ?_ fun _ => rfl
  · rw [hpc]
    simpa [IdlePc.leaving] using ⟨hne, hstays⟩
  · change (afterSend roomId clients readFd messages).messagesOf clientFd = _
    rw [hpc, afterSend]
    split <;> rfl

theorem talkStep_of_step (hreach : system.Reachable s) (hstep : s.step action = some s')
    (hclient' : s'.idle.clientsMap.get? clientFd = some client')
    (hstays : clientFd ∉ s'.pc.leaving) : TalkStep s action s' clientFd client' := by
  have hinvariant := invariant_of_reachable hreach
  have hstored' := (hinvariant.step hstep).stored
  cases effect_of_step hinvariant.stored hstep with
  | accept _ heq | game _ _ _ _ heq =>
    subst heq
    exact talkStep_waits rfl rfl (fun _ => rfl) hclient' hstays
  | handlerDone hdone heq =>
    subst heq
    cases action with
    | newClientsDone | readDone | stateChangesDone =>
      exact talkStep_between hstep rfl (by simp) (by simp) (fun _ => rfl) rfl hclient'
    | _ => cases hdone
  | newClientEvent heq | stateChangeEvent heq =>
    subst heq
    exact talkStep_between hstep rfl (by simp) (by simp) (fun _ => rfl) rfl hclient'
  | addNewClient => exact talkStep_addNewClient hinvariant hstep hclient'
  | receive hreceive heq =>
    exact talkStep_receive hinvariant.stored hstep hreceive (by rw [heq]; rfl) (by rw [heq]; rfl)
      hclient'
  | answer | startGame => exact talkStep_message hinvariant.stored hstep hclient' hstays
  | sendClient hpc hsend heq =>
    subst heq
    exact talkStep_sendClient hinvariant.stored hpc hsend hclient' hstays
  | disconnect heq =>
    subst heq
    exact talkStep_between hstep rfl (by simp) (by simp) (fun _ => rfl) rfl
      (client_of_onClientDisconnect hclient').2
  | applyStateChange hroom hdata happly heq =>
    exact talkStep_applyStateChange hreach hstep hroom hdata happly (by rw [heq]; rfl)
      (by rw [heq]; rfl) hstored' hclient'

/-- The dialogue with a client is kept as long as he is in the idle room, and up to
date unless he is on his way to a game. -/
structure Recorded (s : Server) (clientFd : Int) (d : Option Dialogue) : Prop where
  known : d = none → s.idle.clientsMap.get? clientFd = none
  gone : s.idle.clientsMap.get? clientFd = none → d = none
  fits : ∀ client, s.idle.clientsMap.get? clientFd = some client → clientFd ∉ s.pc.leaving →
    ∃ dialogue, d = some dialogue ∧ Welcomed clientFd dialogue.first ∧
      dialogue.Fits clientFd s.pc client

theorem Recorded.talkStep {d : Option Dialogue} (h : s.Recorded clientFd d)
    (hclient' : s'.idle.clientsMap.get? clientFd = some client')
    (htalk : TalkStep s action s' clientFd client') :
    ∃ dialogue, Dialogue.next clientFd d (s, action, s') = some dialogue ∧
      Welcomed clientFd dialogue.first ∧ dialogue.Fits clientFd s'.pc client' := by
  rw [Dialogue.next, hclient', Option.map_some]
  cases htalk with
  | comes hnew hmessages hfirst =>
    rw [h.gone hnew]
    refine ⟨_, rfl, hfirst, ?_, [], (List.append_nil _).symm, .nil⟩
    rw [hmessages]
    rfl
  | read hbefore hstays haction hidle hparse hmessages heq =>
    obtain ⟨d, rfl, hfirst, hread, hanswered⟩ := h.fits _ hbefore hstays
    rw [hidle, List.append_nil] at hread
    subst haction heq
    rw [Option.elim, Dialogue.goOn, if_pos rfl]
    refine ⟨_, rfl, hfirst, ?_, hanswered⟩
    rw [hmessages]
    exact BufferedParser.feed_append hread hparse
  | answered hbefore hstays haction hpc hmessages hreply =>
    obtain ⟨d, rfl, hfirst, hread, replies, hsent, hanswers⟩ := h.fits _ hbefore hstays
    obtain ⟨hparser, reply, hanswer, hsent'⟩ := hreply.exists_answer
    subst haction
    rw [Option.elim, hpc, Dialogue.goOn, if_pos rfl]
    refine ⟨_, rfl, hfirst, ?_, replies ++ [reply], ?_, ?_⟩
    · rw [hpc, IdlePc.messagesOf, if_pos rfl] at hread
      rw [hmessages, hparser, List.append_assoc]
      exact hread
    · rw [hsent', hsent, List.append_assoc]
    · exact List.rel_append hanswers (.cons hanswer .nil)
  | waits hbefore hstays hmessages hgoes =>
    obtain ⟨d, rfl, hfirst, hread, hanswered⟩ := h.fits _ hbefore hstays
    rw [Option.elim, hgoes d]
    exact ⟨d, rfl, hfirst, hmessages ▸ hread, hanswered⟩

theorem recorded_of_run {steps : List (Server × ServerAction × Server)} (h : system.Run steps s)
    (clientFd : Int) : s.Recorded clientFd (Dialogue.ofRun clientFd steps) := by
  induction h with
  | @init s hinit =>
    have hnone : s.idle.clientsMap.get? clientFd = none := by
      obtain ⟨_, _, _, _, _, _, hstart, _⟩ := hinit
      obtain ⟨epoll, _, hidle⟩ := bind_eq_ok.mp hstart
      obtain ⟨idle, _, _, _⟩ := s
      cases hidle
      rfl
    refine ⟨fun _ => hnone, fun _ => rfl, fun client hclient => ?_⟩
    cases hnone.symm.trans hclient
  | @step steps s s' action hrun hstep ih =>
    have hnext : Dialogue.ofRun clientFd (steps ++ [(s, action, s')]) =
        Dialogue.next clientFd (Dialogue.ofRun clientFd steps) (s, action, s') := by
      rw [Dialogue.ofRun, List.foldl_append]
      rfl
    rw [hnext]
    refine ⟨fun hnone => Option.map_eq_none_iff.mp hnone, fun hnone => ?_,
      fun client' hclient' hstays => ?_⟩
    · rw [Dialogue.next, hnone, Option.map_none]
    · exact ih.talkStep hclient' (talkStep_of_step hrun.reachable hstep hclient' hstays)

/-- Whatever the threads do, a client of the idle room who is not on his way to a game
has been sent, since he was let in, one reply to each of his requests in their
order, and nothing else; and his requests are the messages the parser makes of
what was read of him, up to those that are about to be processed. -/
theorem answers_of_run {steps : List (Server × ServerAction × Server)} (h : system.Run steps s)
    {clientFd : Int} {client : ProtocolClient}
    (hclient : s.idle.clientsMap.get? clientFd = some client) (hstays : clientFd ∉ s.pc.leaving) :
    ∃ first chunks requests replies,
      Dialogue.ofRun clientFd steps = some ⟨first, chunks, requests⟩ ∧
      client.sent = first.sent ++ replies ∧ List.Forall₂ Answers requests replies ∧
      BufferedParser.feed first.parser chunks =
        .ok (requests ++ s.pc.messagesOf clientFd, client.parser) ∧
      Welcomed clientFd first ∧
      (first = Career.connected clientFd → requests ++ s.pc.messagesOf clientFd =
        (breakChunks END_SEQUENCE chunks).closed.map BufferedParser.frameMessage) := by
  obtain ⟨⟨first, chunks, requests⟩, hdialogue, hfirst, hread, replies, hsent, hanswers⟩ :=
    (recorded_of_run h clientFd).fits client hclient hstays
  refine ⟨first, chunks, requests, replies, hdialogue, hsent, hanswers, hread, hfirst, ?_⟩
  rintro rfl
  exact BufferedParser.feed_messages hread

/-- A client is read in two chunks, and his two requests are answered. -/
theorem answers_of_run_chunks : ∃ steps s client first chunks requests replies,
    system.Run steps s ∧ s.idle.clientsMap.get? 10 = some client ∧ requests.length = 2 ∧
    Dialogue.ofRun 10 steps = some ⟨first, chunks, requests⟩ ∧
    client.sent = first.sent ++ replies ∧ List.Forall₂ Answers requests replies := by
  have hcheck : ((oneRoom.bind (TransitionSystem.traceActions step (connectClient 10 ++
      [.receive 10 (some "GET_ROOM_LIST\n\r\n\r\nENTER_USER".toList), .message, .readDone,
        .receive 10 (some "NAME\nusername:A\n\r\n\r\n".toList), .message]))).any fun trace =>
      decide (trace.2.pc.leaving = []) && (trace.2.idle.clientsMap.get? 10).isSome &&
        (Dialogue.ofRun 10 trace.1).any fun d => decide (d.requests.length = 2)) = true := by
    decide +kernel
  obtain ⟨steps, s, hrun, hstate⟩ :=
    TransitionSystem.exists_run_of_any (fun _ _ _ => id) (fun _ => init_of_oneRoom) hcheck
  simp only [Bool.and_eq_true, decide_eq_true_eq, Option.isSome_iff_exists,
    Option.any_eq_true] at hstate
  obtain ⟨⟨hleaving, client, hclient⟩, d, hd, hlength⟩ := hstate
  obtain ⟨first, chunks, requests, replies, hdialogue, hsent, hanswers, _⟩ :=
    answers_of_run hrun hclient (by simp [hleaving])
  cases hd.symm.trans hdialogue
  exact ⟨steps, s, client, first, chunks, requests, replies, hrun, hclient, hlength, hdialogue,
    hsent, hanswers⟩

end Server

end UpsServer
