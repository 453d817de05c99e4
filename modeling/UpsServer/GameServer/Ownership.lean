import UpsServer.GameServer.Sockets

namespace UpsServer.IdleUsersRoom

/-- The client is in the idle room. -/
def Owns (idle : IdleUsersRoom) (clientFd : Int) : Prop :=
  ∃ client, idle.clientsMap.get? clientFd = some client

variable {idle idle' : IdleUsersRoom} {clientFd : Int}

theorem owns_modifyClient {clientFd' : Int} {f : ProtocolClient → ProtocolClient} :
    (idle.modifyClient clientFd' f).Owns clientFd ↔ idle.Owns clientFd := by
  rw [Owns, Owns, modifyClient, ← UnorderedMap.mem_keys, UnorderedMap.keys_modify,
    UnorderedMap.mem_keys]

theorem not_owns_onClientDisconnect (idle : IdleUsersRoom) (clientFd : Int) :
    ¬ (idle.onClientDisconnect clientFd).Owns clientFd := by
  rintro ⟨client, hclient⟩
  cases h : idle.clientsMap.get? clientFd with
  | none =>
    rw [onClientDisconnect, h] at hclient
    cases h.symm.trans hclient
  | some previous =>
    rw [onClientDisconnect, h] at hclient
    cases (UnorderedMap.get?_erase_self _ _).symm.trans hclient

/-- A client stays unless his message removes him. -/
theorem owns_of_answer {msg : ProtocolData} {client : ProtocolClient}
    (hclient : idle.clientsMap.get? clientFd = some client)
    (h : Answer idle msg clientFd client idle' none) :
    idle'.Owns clientFd ↔ ¬ idle.Removes msg clientFd client := by
  have howns : idle.Owns clientFd := ⟨client, hclient⟩
  cases h with
  | removed h => exact iff_of_false (not_owns_onClientDisconnect idle clientFd) (not_not.mpr h)
  | denied h => exact iff_of_true (owns_modifyClient.mpr howns) h
  | named h => exact iff_of_true (owns_modifyClient.mpr (owns_modifyClient.mpr howns)) h
  | listed h => exact iff_of_true (owns_modifyClient.mpr howns) h
  | waits h => exact iff_of_true (owns_modifyClient.mpr howns) h

/-- A client whose data was parsed is still there. -/
theorem owns_of_receiveMessages {received : Option Str} {messages : List ProtocolData}
    (h : idle.receiveMessages clientFd received = .ok (messages, idle')) (hne : messages ≠ []) :
    idle'.Owns clientFd := by
  obtain ⟨client, hclient, hrest⟩ := bind_eq_ok.mp h
  split at hrest
  · cases hrest
    exact (hne rfl).elim
  · cases hrest
    exact owns_modifyClient.mpr ⟨client, clientAt_eq_ok.mp hclient⟩

theorem owns_sendClientToGameThread {roomId : Int} {client : Int} (hstored : idle.StoredUnderOwnFd)
    (h : idle.sendClientToGameThread roomId client = .ok idle') :
    idle'.Owns clientFd ↔ idle.Owns clientFd ∧ clientFd ≠ client := by
  obtain ⟨_, _, _, _, _, rfl⟩ := sendClientToGameThread_eq_ok hstored h
  simp only [Owns, UnorderedMap.get?_erase]
  by_cases heq : clientFd = client <;> simp [heq]

end UpsServer.IdleUsersRoom

namespace UpsServer.Server

/-- The client whose message is processed next is in the idle room. -/
def OwnsSender (s : Server) : Prop :=
  ∀ clientFd msg messages, s.pc = .reading clientFd (msg :: messages) → s.idle.Owns clientFd

/-- A message that removes its sender is the last one of its read. -/
def RemovesLast (s : Server) : ServerAction → Prop
  | .message => ∀ clientFd msg messages client, s.pc = .reading clientFd (msg :: messages) →
      s.idle.clientsMap.get? clientFd = some client → s.idle.Removes msg clientFd client →
        messages = []
  | .sendClient =>
    ∀ roomId client clientFd messages, s.pc = .sending roomId [client] clientFd messages →
      messages = []
  | _ => True

instance (s : Server) : DecidablePred s.RemovesLast
  | .message =>
    match hpc : s.pc with
    | .reading clientFd (msg :: messages) =>
      decidable_of_iff (∀ client ∈ s.idle.clientsMap.get? clientFd, s.idle.Removes msg clientFd client →
        messages = []) <| by
        simp only [RemovesLast, hpc, IdlePc.reading.injEq, List.cons.injEq]
        constructor
        · rintro h _ _ _ client ⟨rfl, rfl, rfl⟩
          exact h client
        · exact fun h client => h _ _ _ client ⟨rfl, rfl, rfl⟩
    | .reading _ [] | .waiting | .collecting | .sending _ _ _ _ | .changing _ =>
      isTrue (by simp [RemovesLast, hpc])
  | .sendClient =>
    match hpc : s.pc with
    | .sending _ [_] _ messages => decidable_of_iff (messages = []) <| by
        simp only [RemovesLast, hpc, IdlePc.sending.injEq]
        constructor
        · rintro h _ _ _ _ ⟨rfl, _, rfl, rfl⟩
          exact h
        · exact fun h => h _ _ _ _ ⟨rfl, rfl, rfl, rfl⟩
    | .sending _ [] _ _ | .sending _ (_ :: _ :: _) _ _ | .waiting | .collecting | .reading _ _
    | .changing _ => isTrue (by simp [RemovesLast, hpc])
  | .accept _ | .newClientEvent | .addNewClient | .newClientsDone | .receive _ _ | .readDone
  | .disconnect _ _ | .stateChangeEvent _ | .applyStateChange | .stateChangesDone | .game _ _ =>
    inferInstanceAs (Decidable True)

/-- Of the two clients of a new game the sender of the request goes first. -/
def SenderFirst (s : Server) : Prop :=
  ∀ roomId clients clientFd messages, s.pc = .sending roomId clients clientFd messages →
    ∃ client2, clients = [clientFd, client2] ∨ clients = [client2] ∧ ¬ s.idle.Owns clientFd

/-- What a step does to the read the idle thread is in. -/
inductive ReadEffect (s s' : Server) : ServerAction → Prop where
  | same {action : ServerAction} (hlast : s.RemovesLast action) (hpc : s'.pc = s.pc)
      (hclients : s'.idle.clientsMap = s.idle.clientsMap) : ReadEffect s s' action
  | outside {action : ServerAction} (hlast : s.RemovesLast action)
      (hpc : s'.pc = .waiting ∨ s'.pc = .collecting ∨ ∃ roomId, s'.pc = .changing roomId) :
        ReadEffect s s' action
  | receive {clientFd : Int} {received : Option Str} {messages : List ProtocolData}
      (hpc : s'.pc = .reading clientFd messages) (howns : messages ≠ [] → s'.idle.Owns clientFd) :
      ReadEffect s s' (.receive clientFd received)
  | message {clientFd : Int} {msg : ProtocolData} {messages : List ProtocolData}
      {client : ProtocolClient}
      (hpc : s.pc = .reading clientFd (msg :: messages))
      (hclient : s.idle.clientsMap.get? clientFd = some client)
      (hpc' : s'.pc = .reading clientFd messages)
      (howns : s'.idle.Owns clientFd ↔ ¬ s.idle.Removes msg clientFd client) :
        ReadEffect s s' .message
  | startGame {clientFd client2 roomId : Int} {msg : ProtocolData} {messages : List ProtocolData}
      {client : ProtocolClient}
      (hpc : s.pc = .reading clientFd (msg :: messages))
      (hclient : s.idle.clientsMap.get? clientFd = some client)
      (hpc' : s'.pc = .sending roomId [clientFd, client2] clientFd messages)
      (hstays : ¬ s.idle.Removes msg clientFd client) : ReadEffect s s' .message
  | sendClient {roomId client clientFd : Int} {clients : List Int} {messages : List ProtocolData}
      (hpc : s.pc = .sending roomId (client :: clients) clientFd messages)
      (hpc' : s'.pc = afterSend roomId clients clientFd messages)
      (howns : s'.idle.Owns clientFd ↔ s.idle.Owns clientFd ∧ clientFd ≠ client) :
        ReadEffect s s' .sendClient

variable {s s' : Server}

private theorem removesLast_of_endsHandler {action : ServerAction} (h : action.endsHandler = true) :
    s.RemovesLast action := by
  cases action with
  | newClientsDone | readDone | stateChangesDone => trivial
  | _ => cases h

theorem readEffect_of_step (hstored : s.idle.StoredUnderOwnFd) {action : ServerAction}
    (h : s.step action = some s') : ReadEffect s s' action := by
  cases effect_of_step hstored h with
  | accept _ heq =>
    subst heq
    exact .same trivial rfl rfl
  | handlerDone hdone heq =>
    subst heq
    exact .outside (removesLast_of_endsHandler hdone) (.inl rfl)
  | newClientEvent heq | addNewClient _ _ heq =>
    subst heq
    exact .outside trivial (.inr (.inl rfl))
  | receive hreceive heq =>
    subst heq
    exact .receive rfl (IdleUsersRoom.owns_of_receiveMessages hreceive)
  | answer hpc hclient hanswer heq =>
    subst heq
    exact .message hpc hclient rfl (IdleUsersRoom.owns_of_answer hclient hanswer)
  | startGame hpc hclient hstays _ _ _ _ heq =>
    subst heq
    exact .startGame hpc hclient rfl hstays
  | sendClient hpc hsend heq =>
    subst heq
    exact .sendClient hpc rfl (IdleUsersRoom.owns_sendClientToGameThread hstored hsend)
  | disconnect heq =>
    subst heq
    exact .outside trivial (.inl rfl)
  | stateChangeEvent heq | applyStateChange _ _ _ heq =>
    subst heq
    exact .outside trivial (.inr (.inr ⟨_, rfl⟩))
  | game _ _ _ _ heq =>
    subst heq
    exact .same trivial rfl rfl

theorem afterSend_cons {roomId client clientFd : Int} {clients : List Int}
    {messages : List ProtocolData} :
    afterSend roomId (client :: clients) clientFd messages =
      .sending roomId (client :: clients) clientFd messages :=
  if_neg (List.cons_ne_nil _ _)

theorem senderFirst_of_reachable (h : system.Reachable s) : s.SenderFirst := by
  refine h.invariant (P := SenderFirst) ?_ fun s action s' hreach hfirst hstep => ?_
  · rintro s ⟨_, _, _, _, _, _, _, hpc, _⟩ roomId clients clientFd messages hsending
    cases hpc.symm.trans hsending
  · intro roomId clients clientFd messages hsending
    cases readEffect_of_step (invariant_of_reachable hreach).stored hstep with
    | same _ hpc hclients =>
      rw [hpc] at hsending
      rw [IdleUsersRoom.Owns, hclients]
      exact hfirst roomId clients clientFd messages hsending
    | outside _ hpc => rcases hpc with hpc | hpc | ⟨_, hpc⟩ <;> cases hpc.symm.trans hsending
    | receive hpc => cases hpc.symm.trans hsending
    | message _ _ hpc' => cases hpc'.symm.trans hsending
    | startGame _ _ hpc' =>
      cases hpc'.symm.trans hsending
      exact ⟨_, .inl rfl⟩
    | sendClient hpc hpc' howns =>
      obtain ⟨client2, hboth | ⟨hsecond, _⟩⟩ := hfirst _ _ _ _ hpc
      · cases hboth
        rw [afterSend_cons] at hpc'
        cases hpc'.symm.trans hsending
        exact ⟨client2, .inr ⟨rfl, fun hsender => (howns.mp hsender).2 rfl⟩⟩
      · cases hsecond
        cases hpc'.symm.trans hsending

/-- A read goes on with a client who is there exactly when a message that removes
him is the last one. -/
theorem ownsSender_step (hreach : system.Reachable s) {action : ServerAction} (h : s.OwnsSender)
    (hstep : s.step action = some s') : s'.OwnsSender ↔ s.RemovesLast action := by
  cases readEffect_of_step (invariant_of_reachable hreach).stored hstep with
  | same hlast hpc hclients =>
    refine iff_of_true (fun clientFd msg messages hreading => ?_) hlast
    rw [hpc] at hreading
    rw [IdleUsersRoom.Owns, hclients]
    exact h clientFd msg messages hreading
  | outside hlast hpc =>
    refine iff_of_true (fun clientFd msg messages hreading => ?_) hlast
    rcases hpc with hpc | hpc | ⟨_, hpc⟩ <;> cases hpc.symm.trans hreading
  | receive hpc howns =>
    refine iff_of_true (fun clientFd msg messages hreading => ?_) trivial
    cases hpc.symm.trans hreading
    exact howns (List.cons_ne_nil _ _)
  | @message clientFd msg messages client hpc hclient hpc' howns =>
    constructor
    · intro hkeeps clientFd' msg' messages' client' hreading hclient' hremoves
      cases hpc.symm.trans hreading
      cases hclient.symm.trans hclient'
      by_contra hmore
      obtain ⟨msg', messages', rfl⟩ := List.exists_cons_of_ne_nil hmore
      exact howns.mp (hkeeps _ _ _ hpc') hremoves
    · intro hlast clientFd' msg' messages' hreading
      cases hpc'.symm.trans hreading
      exact howns.mpr fun hremoves => List.cons_ne_nil _ _ (hlast _ _ _ _ hpc hclient hremoves)
  | @startGame clientFd _ _ msg messages client hpc hclient hpc' hstays =>
    refine iff_of_true
      (fun _ _ _ hreading => ?_) fun clientFd' msg' messages' client' hreading hclient' hremoves =>
        ?_
    · cases hpc'.symm.trans hreading
    · cases hpc.symm.trans hreading
      cases hclient.symm.trans hclient'
      exact (hstays hremoves).elim
  | @sendClient roomId client clientFd clients messages hpc hpc' howns =>
    obtain ⟨client2, hboth | ⟨hsecond, hgone⟩⟩ := senderFirst_of_reachable hreach _ _ _ _ hpc
    · cases hboth
      rw [afterSend_cons] at hpc'
      refine iff_of_true (fun _ _ _ hreading => ?_) fun _ _ _ _ hsending => ?_
      · cases hpc'.symm.trans hreading
      · cases hpc.symm.trans hsending
    · cases hsecond
      constructor
      · intro hkeeps roomId' client' clientFd' messages' hsending
        cases hpc.symm.trans hsending
        by_contra hmore
        obtain ⟨msg', messages', rfl⟩ := List.exists_cons_of_ne_nil hmore
        exact hgone (howns.mp (hkeeps _ _ _ hpc')).1
      · intro hlast clientFd' msg' messages' hreading
        cases hpc'.symm.trans hreading
        cases hlast _ _ _ _ hpc

/-- In every run only clients of the idle room are read exactly when a message
that removes its sender is always the last one of its read. -/
theorem ownsSender_iff {steps : List (Server × ServerAction × Server)} (h : system.Run steps s) :
    (s.OwnsSender ∧ ∀ t ∈ steps, t.1.OwnsSender) ↔ ∀ t ∈ steps, t.1.RemovesLast t.2.1 := by
  refine h.good_iff ?_ fun _ _ _ hreach hsender hstep => ownsSender_step hreach hsender hstep
  rintro s ⟨_, _, _, _, _, _, _, hpc, _⟩ clientFd msg messages hreading
  cases hpc.symm.trans hreading

/-- A client enters his name, asks for the rooms and leaves, all in one write. -/
def terminateLast : List ServerAction :=
  connectClient 10 ++
    [.receive 10 (some (messageText ["ENTER_USERNAME", "username:A"] ++
        messageText ["GET_ROOM_LIST"] ++ messageText ["TERMINATE_CONNECTION"])),
      .message, .message, .message, .readDone]

/-- The message that removes him is the last one of his read. -/
theorem ownsSender_iff_terminateLast : ∃ steps s, system.Run steps s ∧
    (∃ t ∈ steps, t.1.idle.Owns 10) ∧ ¬ s.idle.Owns 10 ∧
    s.OwnsSender ∧ ∀ t ∈ steps, t.1.OwnsSender := by
  have hcheck : ((oneRoom.bind (TransitionSystem.traceActions step terminateLast)).any fun trace =>
      decide ((∀ t ∈ trace.1, t.1.RemovesLast t.2.1) ∧
        (∃ t ∈ trace.1, (t.1.idle.clientsMap.get? 10).isSome = true) ∧
        trace.2.idle.clientsMap.get? 10 = none)) = true := by
    decide +kernel
  obtain ⟨steps, s, hrun, hstate⟩ :=
    TransitionSystem.exists_run_of_any (fun _ _ _ => id) (fun _ => init_of_oneRoom) hcheck
  obtain ⟨hlast, ⟨t, ht, howns⟩, hgone⟩ := of_decide_eq_true hstate
  refine ⟨steps, s, hrun, ⟨t, ht, Option.isSome_iff_exists.mp howns⟩, ?_,
    (ownsSender_iff hrun).mpr hlast⟩
  rintro ⟨client, hclient⟩
  cases hgone.symm.trans hclient

/-- A client terminates his connection and sends a ping in the same write. -/
def terminateAndPing : List ServerAction :=
  connectClient 10 ++
    [.receive 10 (some (messageText ["TERMINATE_CONNECTION"] ++ messageText ["GAME_PING"])),
      .message]

/-- The ping of the client who is gone is processed next. -/
theorem not_ownsSender_terminateAndPing : ¬ ∀ s, system.Reachable s → s.OwnsSender := by
  have hcheck : ((oneRoom.bind (TransitionSystem.runActions step terminateAndPing)).any fun s =>
      decide (s.pc = .reading 10 [newProtocolMessage .GAME_PING []]) &&
        (s.idle.clientsMap.get? 10).isNone) = true := by
    decide +kernel
  obtain ⟨s, hreachable, hstate⟩ := exists_of_oneRoom hcheck
  simp only [Bool.and_eq_true, decide_eq_true_eq, Option.isNone_iff_eq_none] at hstate
  obtain ⟨hpc, hgone⟩ := hstate
  intro hall
  obtain ⟨client, hclient⟩ := hall s hreachable 10 _ _ hpc
  cases hgone.symm.trans hclient

end UpsServer.Server
