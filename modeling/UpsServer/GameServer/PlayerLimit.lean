import UpsServer.GameServer.Representation

namespace UpsServer

namespace IdleUsersRoom

variable {idle idle' : IdleUsersRoom} {clientFd : Int}

private theorem maxPlayerCount_onClientDisconnect (idle : IdleUsersRoom) (clientFd : Int) :
    (idle.onClientDisconnect clientFd).maxPlayerCount = idle.maxPlayerCount := by
  unfold onClientDisconnect
  split <;> rfl

private theorem maxPlayerCount_storeClient (idle : IdleUsersRoom) (clientFd : Int) (client : ProtocolClient) :
    (idle.storeClient clientFd client).maxPlayerCount = idle.maxPlayerCount := by
  unfold storeClient
  split <;> rfl

/-- Greeting a client changes nothing but the epoll object and his messages. -/
theorem welcomeClient_eq_ok (h : idle.welcomeClient clientFd = .ok idle') :
    ∃ epoll msg, idle' = ({ idle with epoll := epoll }.modifyClient clientFd (·.sendMsg msg)) := by
  obtain ⟨epoll, _, hsend⟩ := bind_eq_ok.mp h
  exact ⟨epoll, _, (sendMsg_eq_ok.mp hsend).2⟩

private theorem maxPlayerCount_welcomeClient (h : idle.welcomeClient clientFd = .ok idle') :
    idle'.maxPlayerCount = idle.maxPlayerCount := by
  obtain ⟨_, _, rfl⟩ := welcomeClient_eq_ok h
  rfl

private theorem maxPlayerCount_addNewClient (h : idle.addNewClient clientFd = .ok idle') :
    idle'.maxPlayerCount = idle.maxPlayerCount := by
  have hstore := maxPlayerCount_storeClient idle clientFd { clientFd := clientFd }
  unfold addNewClient at h
  simp only at h
  split at h
  · cases h
    rw [maxPlayerCount_onClientDisconnect, hstore]
  · rw [maxPlayerCount_welcomeClient h, hstore]

private theorem maxPlayerCount_addClientBack {client : Option ProtocolClient}
    (h : idle.addClientBack client = .ok idle') : idle'.maxPlayerCount = idle.maxPlayerCount := by
  cases client with
  | none =>
    cases h
    rfl
  | some client => rw [maxPlayerCount_welcomeClient h, maxPlayerCount_storeClient]

private theorem maxPlayerCount_applyStateChange {roomId : Int} {change : GameStateChange}
    (h : idle.applyStateChange roomId change = .ok idle') :
    idle'.maxPlayerCount = idle.maxPlayerCount := by
  obtain ⟨_, first, back, hfirst, hback, rfl⟩ | ⟨_, rfl⟩ | ⟨_, rfl⟩ := applyStateChange_cases h
  · exact (maxPlayerCount_addClientBack hback).trans (maxPlayerCount_addClientBack hfirst)
  · rfl
  · rfl

private theorem maxPlayerCount_receiveMessages {received : Option Str} {messages : List ProtocolData}
    (h : idle.receiveMessages clientFd received = .ok (messages, idle')) :
    idle'.maxPlayerCount = idle.maxPlayerCount := by
  obtain ⟨client, _, hreceive⟩ := bind_eq_ok.mp h
  split at hreceive
  · cases hreceive
    exact maxPlayerCount_onClientDisconnect idle client.clientFd
  · cases hreceive
    rfl

private theorem maxPlayerCount_answer {msg : ProtocolData} {client : ProtocolClient}
    (h : Answer idle msg clientFd client idle' none) :
    idle'.maxPlayerCount = idle.maxPlayerCount := by
  cases h with
  | removed => exact maxPlayerCount_onClientDisconnect idle clientFd
  | denied | named | listed | waits => rfl

private theorem maxPlayerCount_newGameThread {client1 client2 roomId : Int}
    (h : idle.newGameThread client1 client2 roomId = .ok idle') :
    idle'.maxPlayerCount = idle.maxPlayerCount := by
  obtain ⟨_, _, _, rfl⟩ := newGameThread_eq_ok h
  rfl

private theorem maxPlayerCount_sendClientToGameThread {roomId : Int} (hstored : idle.StoredUnderOwnFd)
    (h : idle.sendClientToGameThread roomId clientFd = .ok idle') :
    idle'.maxPlayerCount = idle.maxPlayerCount := by
  obtain ⟨_, _, _, _, _, rfl⟩ := sendClientToGameThread_eq_ok hstored h
  rfl

/-- A stranger is let in or turned away, as the clients of the idle room alone
are fewer than the limit or not. -/
theorem addNewClient_of_stranger (hstranger : idle.clientsMap.get? clientFd = none)
    (h : idle.addNewClient clientFd = .ok idle') :
    idle'.closedSockets = idle.closedSockets ++
      if idle.clientsMap.keys.card < idle.maxPlayerCount then [] else [clientFd] := by
  have hcard : (insert clientFd idle.clientsMap.keys).card = idle.clientsMap.keys.card + 1 :=
    Finset.card_insert_of_notMem (UnorderedMap.notMem_keys.mpr hstranger)
  unfold addNewClient storeClient at h
  simp only [hstranger, UnorderedMap.keys_set, hcard] at h
  split at h
  · cases h
    rw [if_neg (by omega), onClientDisconnect, UnorderedMap.get?_set_self]
    rfl
  · obtain ⟨_, _, rfl⟩ := welcomeClient_eq_ok h
    rw [if_pos (by omega), List.append_nil]
    rfl

end IdleUsersRoom

namespace Server

open IdleUsersRoom

variable {s s' : Server} {action : ServerAction}

/-- How many clients the idle room and the games hold: in `_clientsMap`, in the
player slots and in the queues of the rooms. -/
def playerCount (s : Server) : Nat := (s.places.bind s.clientsAt).card

/-- The sockets belong to those who wait to be let in and to those who have been
let in. -/
theorem card_sockets (h : s.Invariant) :
    s.sockets.card = s.idle.newClientsQueue.data.length + s.playerCount := by
  have hfds : ∀ place ≠ Place.newClientsQueue, (s.fdsAt place).card = (s.clientsAt place).card := by
    intro place hne
    cases place with
    | newClientsQueue => exact (hne rfl).elim
    | clientsMap | player roomId ref | gameInput roomId | gameOutput roomId =>
      exact Multiset.card_map _ _
  obtain ⟨rest, hplaces, hrest⟩ : ∃ rest, s.places = .newClientsQueue ::ₘ rest ∧
      Place.newClientsQueue ∉ rest := ⟨_, rfl, by simp⟩
  have hcard : s.heldFds.card = s.idle.newClientsQueue.data.length + s.playerCount := by
    have hsum : rest.map (fun place => (s.fdsAt place).card) =
        rest.map fun place => (s.clientsAt place).card :=
      Multiset.map_congr rfl fun place hplace => hfds place fun heq => hrest (heq ▸ hplace)
    have hqueue : (s.fdsAt .newClientsQueue).card = s.idle.newClientsQueue.data.length :=
      Multiset.coe_card _
    have hnobody : (s.clientsAt .newClientsQueue).card = 0 := rfl
    rw [heldFds, playerCount, hplaces, Multiset.card_bind, Multiset.card_bind, Multiset.map_cons,
      Multiset.map_cons, Multiset.sum_cons, Multiset.sum_cons]
    simp only [Function.comp_def, hqueue, hnobody, hsum, Nat.zero_add]
  rw [Finset.card, ← h.sockets, hcard]

/-- The action lets nobody in at the door. -/
def PassesDoor (action : ServerAction) : Prop :=
  action ≠ .addNewClient ∧ ∀ clientFd, action ≠ .accept clientFd

/-- Away from the door the queue of new clients stays as it is and sockets can
only be closed. -/
theorem door_of_step (h : s.Invariant) (hdoor : PassesDoor action)
    (hstep : s.step action = some s') :
    s'.idle.newClientsQueue.data = s.idle.newClientsQueue.data ∧ s'.sockets ⊆ s.sockets := by
  have hremaining : ∀ before after, s.remaining before after ⊆ s.sockets :=
    fun before after => Finset.sdiff_subset
  cases effect_of_step h.stored hstep with
  | accept => exact (hdoor.2 _ rfl).elim
  | addNewClient => exact (hdoor.1 rfl).elim
  | handlerDone _ heq =>
    subst heq
    exact ⟨rfl, Finset.Subset.refl _⟩
  | newClientEvent heq | stateChangeEvent heq | game _ _ _ _ heq =>
    subst heq
    exact ⟨rfl, hremaining _ _⟩
  | receive hreceive heq =>
    subst heq
    exact ⟨congrArg _ (admits_receiveMessages hreceive).newClientsQueue, hremaining _ _⟩
  | answer _ _ hanswer heq =>
    subst heq
    exact ⟨congrArg _ (admits_answer hanswer).newClientsQueue, hremaining _ _⟩
  | startGame _ _ _ _ _ hnew _ heq =>
    subst heq
    obtain ⟨_, _, _, rfl⟩ := newGameThread_eq_ok hnew
    exact ⟨rfl, hremaining _ _⟩
  | sendClient _ hsend heq =>
    subst heq
    obtain ⟨_, _, _, _, _, rfl⟩ := sendClientToGameThread_eq_ok h.stored hsend
    exact ⟨rfl, hremaining _ _⟩
  | disconnect heq =>
    subst heq
    exact ⟨congrArg _ (admits_onClientDisconnect s.idle _).newClientsQueue, hremaining _ _⟩
  | applyStateChange _ _ happly heq =>
    subst heq
    refine ⟨?_, hremaining _ _⟩
    obtain ⟨_, _, hadmits, rfl⟩ | ⟨_, rfl⟩ | ⟨_, rfl⟩ := applyStateChange_eq_ok happly
    · exact congrArg _ hadmits.newClientsQueue
    · rfl
    · rfl

/-- The limit is fixed. -/
theorem maxPlayerCount_step (h : s.Invariant) (hstep : s.step action = some s') :
    s'.idle.maxPlayerCount = s.idle.maxPlayerCount := by
  cases effect_of_step h.stored hstep with
  | accept _ heq | handlerDone _ heq | newClientEvent heq | stateChangeEvent heq
  | game _ _ _ _ heq =>
    subst heq
    rfl
  | addNewClient _ _ _ =>
    obtain ⟨_, _, _, hadd, _⟩ := addNewClient_of_step hstep
    rw [maxPlayerCount_addNewClient hadd]
  | receive hreceive heq =>
    subst heq
    exact maxPlayerCount_receiveMessages hreceive
  | answer _ _ hanswer heq =>
    subst heq
    exact maxPlayerCount_answer hanswer
  | startGame _ _ _ _ _ hnew _ heq =>
    subst heq
    exact maxPlayerCount_newGameThread hnew
  | sendClient _ hsend heq =>
    subst heq
    exact maxPlayerCount_sendClientToGameThread h.stored hsend
  | disconnect heq =>
    subst heq
    exact maxPlayerCount_onClientDisconnect s.idle _
  | applyStateChange _ _ happly heq =>
    subst heq
    exact (maxPlayerCount_applyStateChange happly :)

/-- Whoever comes to the door is let in when fewer clients than the limit are in
the idle room, wherever the others are. -/
theorem playerCount_addNewClient (h : s.Invariant) (hstep : s.step .addNewClient = some s') :
    s'.playerCount = s.playerCount +
      if s.idle.clientsMap.keys.card < s.idle.maxPlayerCount then 1 else 0 := by
  have hbefore := card_sockets h
  have hafter := card_sockets (h.step hstep)
  cases effect_of_step h.stored hstep with
  | handlerDone hdone => cases hdone
  | @addNewClient clientFd data idle hdata hadmits heq =>
    obtain ⟨clientFd', data', hdata', hadd, _⟩ := addNewClient_of_step hstep
    obtain ⟨rfl, rfl⟩ := List.cons.inj (hdata.symm.trans hdata')
    obtain ⟨hstranger, hsocket⟩ := h.stranger hdata
    subst heq
    have hclosed := addNewClient_of_stranger (by exact hstranger) hadd
    change idle.closedSockets = s.idle.closedSockets ++
      if s.idle.clientsMap.keys.card < s.idle.maxPlayerCount then [] else [clientFd] at hclosed
    have hqueue : idle.newClientsQueue.data = data := congrArg _ hadmits.newClientsQueue
    have hsockets : (s.withIdle .collecting idle).sockets =
        s.sockets \ (idle.closedSockets.drop s.idle.closedSockets.length).toFinset := rfl
    rw [hsockets, hclosed, List.drop_left] at hafter
    change _ = idle.newClientsQueue.data.length + _ at hafter
    rw [hqueue] at hafter
    rw [hdata, List.length_cons] at hbefore
    split at hafter
    · rename_i hroom
      rw [if_pos hroom]
      simp only [List.toFinset_nil, Finset.sdiff_empty] at hafter
      omega
    · rename_i hfull
      rw [if_neg hfull]
      simp only [List.toFinset_cons, List.toFinset_nil, insert_empty_eq, Finset.sdiff_singleton_eq_erase,
        Finset.card_erase_of_mem hsocket] at hafter
      omega

/-- Nobody is let in who would exceed the limit: the clients of the idle room and
of the games are fewer than the limit, or the idle room alone is full and turns
him away. -/
def AdmitsWithinLimit (s : Server) : ServerAction → Prop
  | .addNewClient => s.playerCount < s.idle.maxPlayerCount ∨
      s.idle.maxPlayerCount ≤ s.idle.clientsMap.keys.card
  | _ => True

instance (s : Server) : DecidablePred s.AdmitsWithinLimit
  | .addNewClient => inferInstanceAs (Decidable (_ ∨ _))
  | .accept _ | .newClientEvent | .newClientsDone | .receive _ _ | .message | .sendClient | .readDone
  | .disconnect _ _ | .stateChangeEvent _ | .applyStateChange | .stateChangesDone | .game _ _ =>
    inferInstanceAs (Decidable True)

def WithinLimit (s : Server) : Prop := s.playerCount ≤ s.idle.maxPlayerCount

theorem withinLimit_step (hreach : system.Reachable s) (h : s.WithinLimit)
    (hstep : s.step action = some s') : s'.WithinLimit ↔ s.AdmitsWithinLimit action := by
  have hinvariant := invariant_of_reachable hreach
  have hlimit := maxPlayerCount_step hinvariant hstep
  have hbefore := card_sockets hinvariant
  have hafter := card_sockets (hinvariant.step hstep)
  have hpasses : PassesDoor action → s'.WithinLimit := by
    intro hdoor
    obtain ⟨hqueue, hsockets⟩ := door_of_step hinvariant hdoor hstep
    have hcard := Finset.card_le_card hsockets
    rw [hqueue] at hafter
    rw [WithinLimit] at h ⊢
    omega
  cases action with
  | addNewClient =>
    have hcount := playerCount_addNewClient hinvariant hstep
    simp only [WithinLimit, AdmitsWithinLimit] at h ⊢
    split at hcount <;> omega
  | accept clientFd =>
    obtain ⟨⟨_, hnew, _⟩, heq⟩ := Option.ite_none_right_eq_some.mp hstep
    have heq := (Option.some.inj heq).symm
    have hqueue : s'.idle.newClientsQueue.data.length = s.idle.newClientsQueue.data.length + 1 := by
      rw [heq]
      exact List.length_append
    have hsockets : s'.sockets.card = s.sockets.card + 1 := by
      rw [heq]
      exact Finset.card_insert_of_notMem hnew
    refine iff_of_true ?_ trivial
    rw [WithinLimit] at h ⊢
    omega
  | _ => exact iff_of_true (hpasses ⟨nofun, nofun⟩) trivial

/-- The server begins without clients. -/
theorem withinLimit_init (h : system.init s) : s.WithinLimit := by
  have hcard := card_sockets (invariant_init h)
  obtain ⟨_, _, _, _, _, _, _, _, _, hsockets⟩ := h
  rw [hsockets, Finset.card_empty] at hcard
  rw [WithinLimit]
  omega

/-- The player limit holds all along a run exactly when nobody is ever let in
beyond it. -/
theorem playerLimit_iff {steps : List (Server × ServerAction × Server)}
    (h : system.Run steps s) :
    (s.playerCount ≤ s.idle.maxPlayerCount ∧
        ∀ t ∈ steps, t.1.playerCount ≤ t.1.idle.maxPlayerCount) ↔
      ∀ t ∈ steps, t.1.AdmitsWithinLimit t.2.1 :=
  h.good_iff (fun _ => withinLimit_init) fun _ _ _ => withinLimit_step

/-- A server with one room for so many players. -/
def oneRoomFor (maxPlayerCount : Nat) : Option Server :=
  (IdleUsersRoom.start { evfd := 100 }
    (IdleUsersRoom.createRooms (fun _ => 101) (fun _ => 102) 1) maxPlayerCount).toOption.map
    ({ idle := · })

theorem init_of_oneRoomFor {maxPlayerCount : Nat} (h : oneRoomFor maxPlayerCount = some s) :
    system.init s := by
  obtain ⟨idle, hstart, rfl⟩ := Option.map_eq_some_iff.mp h
  exact ⟨100, fun _ => 101, fun _ => 102, 1, maxPlayerCount, by decide, toOption_eq_some.mp hstart,
    rfl, rfl, rfl⟩

/-- Two clients play, and a third one connects to the empty idle room. -/
def connectThird : List ServerAction :=
  startGameOfTwo ++ [.sendClient, .sendClient, .readDone] ++ connectClient 12

/-- With room for two a third client is let in. -/
theorem not_playerLimit_third : ∃ s, system.Reachable s ∧ s.pc = .waiting ∧
    s.idle.maxPlayerCount = 2 ∧ s.playerCount = 3 := by
  have hcheck : (((oneRoomFor 2).bind (TransitionSystem.runActions step connectThird)).any fun s =>
      decide (s.pc = .waiting ∧ s.idle.maxPlayerCount = 2 ∧ s.playerCount = 3)) = true := by
    decide +kernel
  obtain ⟨s, hreachable, hstate⟩ :=
    TransitionSystem.exists_reachable_of_any (fun _ _ _ => id) (fun _ => init_of_oneRoomFor) hcheck
  exact ⟨s, hreachable, of_decide_eq_true hstate⟩

/-- With room for three he may come. -/
theorem playerLimit_iff_third : ∃ steps s, system.Run steps s ∧ s.playerCount = 3 ∧
    s.playerCount ≤ s.idle.maxPlayerCount ∧
      ∀ t ∈ steps, t.1.playerCount ≤ t.1.idle.maxPlayerCount := by
  have hcheck : (((oneRoomFor 3).bind (TransitionSystem.traceActions step connectThird)).any fun trace =>
      decide (trace.2.playerCount = 3 ∧ ∀ t ∈ trace.1, t.1.AdmitsWithinLimit t.2.1)) = true := by
    decide +kernel
  obtain ⟨steps, s, hrun, hstate⟩ :=
    TransitionSystem.exists_run_of_any (fun _ _ _ => id) (fun _ => init_of_oneRoomFor) hcheck
  obtain ⟨hcount, hadmits⟩ := of_decide_eq_true hstate
  exact ⟨steps, s, hrun, hcount, (playerLimit_iff hrun).mpr hadmits⟩

end Server

end UpsServer
