import UpsServer.GameServer.Rejoin
import UpsServer.GameServer.Tables

namespace UpsServer

/-- The clients of a game that has started who have not been sent to it yet. -/
def IdlePc.leaving : IdlePc → List Int
  | .sending _ clients _ _ => clients
  | _ => []

namespace Server

open IdleUsersRoom

variable {s s' : Server} {action : ServerAction}

/-- Only a new game leaves clients on their way behind. -/
theorem leaving_of_step (h : s.step action = some s') (hidle : action.reachesGame = false)
    (haccept : ∀ clientFd, action ≠ .accept clientFd) : s.pc.leaving = [] := by
  cases hpc : s.pc with
  | sending roomId clients clientFd messages =>
    cases action with
    | accept clientFd => exact (haccept clientFd rfl).elim
    | sendClient | game => cases hidle
    | newClientEvent | addNewClient | newClientsDone | receive | message | readDone | disconnect
    | stateChangeEvent | applyStateChange | stateChangesDone => simp [step, hpc] at h
  | _ => rfl

/-- The descriptors of the queues never change. -/
theorem isEvfd_step (h : s.Invariant) (hstep : s.step action = some s') :
    s'.idle.isEvfd = s.idle.isEvfd := by
  cases effect_of_step h.stored hstep with
  | accept _ heq | handlerDone _ heq | newClientEvent heq =>
    subst heq
    rfl
  | addNewClient _ hadmits heq =>
    subst heq
    exact hadmits.isEvfd
  | receive hreceive heq =>
    subst heq
    exact (admits_receiveMessages hreceive).isEvfd
  | answer _ _ hanswer heq =>
    subst heq
    exact (admits_answer hanswer).isEvfd
  | disconnect heq =>
    subst heq
    exact (admits_onClientDisconnect s.idle _).isEvfd
  | startGame _ _ _ _ _ hnew _ heq =>
    obtain ⟨usernameA, usernameB, epoll, rfl⟩ := newGameThread_eq_ok hnew
    subst heq
    exact isEvfd_of_modify s.idle rfl rfl fun _ _ => rfl
  | sendClient _ hsend heq =>
    obtain ⟨client, room, _, _, _, rfl⟩ := sendClientToGameThread_eq_ok h.stored hsend
    subst heq
    exact isEvfd_of_modify s.idle rfl rfl fun _ _ => rfl
  | stateChangeEvent heq =>
    subst heq
    exact isEvfd_of_modify s.idle rfl rfl fun _ _ => rfl
  | @applyStateChange roomId room change data idle hroom _ happly heq =>
    subst heq
    exact (isEvfd_applyStateChange happly).trans (isEvfd_withOutput hroom data)
  | @game roomId action room stored t' hown hroom _ hgo heq =>
    subst heq
    refine isEvfd_of_modify s.idle rfl rfl fun room' hroom' => ?_
    rw [hroom] at hroom'
    cases hroom'
    have hhandover := GameThread.handover_step hown hgo
    exact Prod.ext hhandover.inputEvfd hhandover.outputEvfd

/-- A socket is opened by a client who connects, under a descriptor that is not
in use. -/
theorem sockets_step (h : s.Invariant) (hstep : s.step action = some s') :
    ∀ fd ∈ s'.sockets, fd ∈ s.sockets ∨ s.idle.isEvfd fd = false := by
  have hremaining : ∀ before after, ∀ fd ∈ s.remaining before after, fd ∈ s.sockets :=
    fun before after fd hfd => (Finset.mem_sdiff.mp hfd).1
  intro fd hfd
  cases effect_of_step h.stored hstep with
  | accept _ heq =>
    obtain ⟨⟨_, _, hevfd⟩, _⟩ := Option.ite_none_right_eq_some.mp hstep
    subst heq
    obtain rfl | hfd := Finset.mem_insert.mp hfd
    · exact .inr hevfd
    · exact .inl hfd
  | handlerDone _ heq =>
    subst heq
    exact .inl hfd
  | newClientEvent heq | addNewClient _ _ heq | receive _ heq | answer _ _ _ heq
  | disconnect heq | startGame _ _ _ _ _ _ _ heq | sendClient _ _ heq | stateChangeEvent heq
  | applyStateChange _ _ _ heq | game _ _ _ _ heq =>
    subst heq
    exact .inl (hremaining _ _ fd hfd)

/-- The descriptor of a client is not one of a queue. -/
def SocketsApart (s : Server) : Prop := ∀ fd ∈ s.sockets, s.idle.isEvfd fd = false

theorem SocketsApart.step (h : s.SocketsApart) (hinvariant : s.Invariant)
    (hstep : s.step action = some s') : s'.SocketsApart := by
  intro fd hfd
  rw [isEvfd_step hinvariant hstep]
  obtain hfd | hfd := sockets_step hinvariant hstep fd hfd
  · exact h fd hfd
  · exact hfd

theorem socketsApart_of_reachable (h : system.Reachable s) : s.SocketsApart := by
  refine h.invariant (P := SocketsApart) ?_ fun s action s' hreach hapart hstep =>
    hapart.step (invariant_of_reachable hreach) hstep
  rintro s ⟨_, _, _, _, _, _, _, _, _, hsockets⟩ fd hfd
  rw [hsockets] at hfd
  exact (Finset.notMem_empty fd hfd).elim

/-- The answer to a message, and the clients who are sent to a new game if it
starts one. -/
theorem answer_of_message (hstored : s.idle.StoredUnderOwnFd) (h : s.step .message = some s') :
    ∃ clientFd msg messages client newGame, s.idle.clientsMap.get? clientFd = some client ∧
      Answer s.idle msg clientFd client s'.idle newGame ∧
      s'.pc = newGame.elim (.reading clientFd messages) fun new =>
        .sending new.roomId [new.client1, new.client2] clientFd messages := by
  obtain ⟨clientFd, msg, messages, client, ⟨idle, newGame⟩, _, hclient, hanswer, hafter⟩ :=
    answered_of_message hstored h
  cases newGame with
  | none =>
    cases hafter
    exact ⟨clientFd, msg, messages, client, none, hclient, hanswer, rfl⟩
  | some newGame =>
    cases hanswer with
    | starts hstays hname hne hidle hwaiting hnew =>
      obtain ⟨room, g, _, _, rfl⟩ := startGame_eq_some hnew hafter
      exact ⟨clientFd, msg, messages, client, _, hclient,
        .starts hstays hname hne hidle hwaiting hnew, rfl⟩

theorem addNewClient_of_step (h : s.step .addNewClient = some s') :
    ∃ clientFd data, s.idle.newClientsQueue.data = clientFd :: data ∧
      ({ s.idle with newClientsQueue := { s.idle.newClientsQueue with data := data } } :
        IdleUsersRoom).addNewClient clientFd = .ok s'.idle ∧ s'.pc = .collecting := by
  obtain ⟨_, h⟩ := Option.ite_none_right_eq_some.mp h
  obtain ⟨⟨clientFd, newClientsQueue⟩, hpop, h⟩ := Option.bind_eq_some_iff.mp h
  obtain ⟨data, hdata, rfl⟩ := EventfdQueue.pop_eq_some.mp hpop
  obtain ⟨idle, hadd, rfl⟩ := resume_eq_some h
  exact ⟨clientFd, data, hdata, hadd, rfl⟩

section Sockets

variable (h : s.Invariant)
include h

theorem Invariant.nodup_idle : s.idle.heldFds.Nodup := by
  have hheld : s.heldFds.Nodup := h.sockets ▸ s.sockets.nodup
  rw [heldFds_eq] at hheld
  exact (Multiset.nodup_add.mp hheld).1

theorem Invariant.mem_sockets {fd : Int} (hfd : fd ∈ s.idle.heldFds) : fd ∈ s.sockets := by
  rw [← Finset.mem_val, ← h.sockets, heldFds_eq]
  exact Multiset.mem_add.mpr (.inl hfd)

/-- Whoever waits at the door is a stranger to the idle room. -/
theorem Invariant.stranger {clientFd : Int} {data : List Int}
    (hdata : s.idle.newClientsQueue.data = clientFd :: data) :
    s.idle.clientsMap.get? clientFd = none ∧ clientFd ∈ s.sockets := by
  have hmem : clientFd ∈ (s.idle.newClientsQueue.data : Multiset Int) := by
    rw [hdata]
    exact Multiset.mem_coe.mpr List.mem_cons_self
  have hnodup : (s.idle.clientFds + (s.idle.newClientsQueue.data : Multiset Int)).Nodup := by
    refine Multiset.nodup_of_le ?_ h.nodup_idle
    rw [IdleUsersRoom.heldFds, add_comm s.idle.clientFds]
    exact add_le_add_right (Multiset.le_add_right _ _) _
  exact ⟨get?_eq_none_of_nodup h.stored hnodup hmem,
    h.mem_sockets (Multiset.mem_add.mpr (.inl hmem))⟩

end Sockets

/-- A new client is not in the tables yet. -/
theorem tables_addNewClient (hreach : system.Reachable s) (h : s.idle.TablesAgree [])
    {clientFd : Int} {data : List Int} {idle : IdleUsersRoom}
    (hdata : s.idle.newClientsQueue.data = clientFd :: data)
    (hadd : ({ s.idle with newClientsQueue := { s.idle.newClientsQueue with data := data } } :
      IdleUsersRoom).addNewClient clientFd = .ok idle) : idle.TablesAgree [] := by
  obtain ⟨hstranger, hsocket⟩ := (invariant_of_reachable hreach).stranger hdata
  have hpopped : ({ s.idle with newClientsQueue := { s.idle.newClientsQueue with data := data } } :
      IdleUsersRoom).TablesAgree [] := h.congr rfl rfl rfl rfl rfl fun _ => rfl
  exact hpopped.addNewClient hstranger (socketsApart_of_reachable hreach clientFd hsocket) hadd

/-- The clients of a game that has ended come back to the tables. -/
theorem tables_applyStateChange (hreach : system.Reachable s) (h : s.idle.TablesAgree [])
    {roomId : Int} {room : GameRoom} {change : GameStateChange} {data : List GameStateChange}
    {idle : IdleUsersRoom} (hroom : s.idle.gameRooms.get? roomId = some room)
    (hdata : room.gameOutput.data = change :: data)
    (happly : (s.idle.modifyRoom roomId
      (GameRoom.withOutput { room.gameOutput with data := data })).applyStateChange roomId change =
        .ok idle) : idle.TablesAgree [] := by
  have hinvariant := invariant_of_reachable hreach
  have hheld := heldFds_popOutput hroom hdata
  have hnodup := hinvariant.nodup_idle
  rw [← hheld] at hnodup
  have hpopped : (s.idle.modifyRoom roomId
      (GameRoom.withOutput { room.gameOutput with data := data })).TablesAgree [] :=
    h.congr rfl rfl rfl rfl (isEvfd_withOutput hroom data)
      (map_get?_modify GameRoom.books s.idle.gameRooms fun _ _ => rfl)
  have hpopRoom : (s.idle.modifyRoom roomId
      (GameRoom.withOutput { room.gameOutput with data := data })).gameRooms.get? roomId =
        some (room.withOutput { room.gameOutput with data := data }) :=
    UnorderedMap.get?_modify_of_get? hroom _
  refine hpopped.applyStateChange hpopRoom (fun hpaused hidle => ?_) ?_ (fun fd hfd => ?_) happly
  · -- an idle room has no changes to report
    have hempty := ((hinvariant.phase roomId room hroom).of_idle hidle).2
    rw [hdata] at hempty
    cases hempty
  · refine Multiset.nodup_of_le (add_le_add_left ?_ _) hnodup
    exact (Multiset.le_add_right _ _).trans (Multiset.le_add_left _ _)
  · have hsocket : fd ∈ s.sockets := by
      apply hinvariant.mem_sockets
      rw [← hheld]
      exact Multiset.mem_add.mpr (.inr hfd)
    rw [isEvfd_withOutput hroom data]
    exact socketsApart_of_reachable hreach fd hsocket

private theorem monitoredFds_kernelCloses (e : Epoll IdleHandler) (fds : List Int) :
    (fds.foldl Epoll.kernelClose e).monitoredFds = e.monitoredFds := by
  induction fds generalizing e with
  | nil => rfl
  | cons fd fds ih =>
    rw [List.foldl_cons, ih]
    rfl

/-- No step brings the tables out of step. -/
theorem tables_step (hreach : system.Reachable s) (h : s.idle.TablesAgree s.pc.leaving)
    (hstep : s.step action = some s') : s'.idle.TablesAgree s'.pc.leaving := by
  have hinvariant := invariant_of_reachable hreach
  have hsettled : action.reachesGame = false → (∀ clientFd, action ≠ .accept clientFd) →
      s.idle.TablesAgree [] := by
    intro hidle haccept
    rwa [leaving_of_step hstep hidle haccept] at h
  cases effect_of_step hinvariant.stored hstep with
  | accept _ heq =>
    subst heq
    exact h.congr rfl rfl rfl rfl rfl fun _ => rfl
  | handlerDone hdone heq =>
    subst heq
    refine hsettled ?_ ?_
    · cases action <;> first | rfl | cases hdone
    · rintro clientFd rfl
      cases hdone
  | newClientEvent heq =>
    subst heq
    exact (hsettled rfl nofun).congr rfl rfl rfl rfl rfl fun _ => rfl
  | addNewClient =>
    obtain ⟨clientFd, data, hdata, hadd, hpc⟩ := addNewClient_of_step hstep
    rw [hpc]
    exact tables_addNewClient hreach (hsettled rfl nofun) hdata hadd
  | receive hreceive heq =>
    subst heq
    exact (hsettled rfl nofun).receiveMessages hreceive
  | answer | startGame =>
    obtain ⟨clientFd, msg, messages, client, newGame, hclient, hanswer, hpc⟩ :=
      answer_of_message hinvariant.stored hstep
    have hanswered := (hsettled rfl nofun).answer hclient hanswer
    rw [hpc]
    cases newGame <;> exact hanswered
  | @sendClient roomId client clientFd clients messages idle hpc hsend heq =>
    subst heq
    rw [hpc] at h
    have hsent : idle.TablesAgree clients := h.sendClientToGameThread hsend
    have hleaving : (afterSend roomId clients clientFd messages).leaving = clients := by
      unfold afterSend
      split
      · rename_i hnone
        exact hnone.symm
      · rfl
    change idle.TablesAgree (afterSend roomId clients clientFd messages).leaving
    rw [hleaving]
    exact hsent
  | disconnect heq =>
    subst heq
    exact (hsettled rfl nofun).onClientDisconnect _
  | stateChangeEvent heq =>
    subst heq
    exact (hsettled rfl nofun).congr rfl rfl rfl rfl
      (isEvfd_of_modify s.idle rfl rfl fun _ _ => rfl)
      (map_get?_modify GameRoom.books s.idle.gameRooms fun _ _ => rfl)
  | applyStateChange hroom hdata happly heq =>
    subst heq
    exact tables_applyStateChange hreach (hsettled rfl nofun) hroom hdata happly
  | game hown hroom _ hgo heq =>
    have hevfd := isEvfd_step hinvariant hstep
    subst heq
    exact h.congr rfl (monitoredFds_kernelCloses _ _) rfl rfl hevfd
      (map_get?_modify GameRoom.books s.idle.gameRooms fun _ _ => rfl)

theorem tables_init (h : system.init s) : s.idle.TablesAgree s.pc.leaving := by
  obtain ⟨newClientsEvfd, inputEvfd, outputEvfd, roomCount, maxPlayerCount, _, hstart, hpc, _⟩ := h
  obtain ⟨epoll, hepoll, hidle⟩ := bind_eq_ok.mp hstart
  rw [hpc]
  obtain ⟨idle, pc, games, sockets⟩ := s
  cases hidle
  have hmonitors := ((Epoll.monitors_empty true).addDescriptor newClientsEvfd).addEventHandler hepoll
  refine ⟨fun _ _ hclient => (nomatch hclient), watched_of_monitors hmonitors rfl ?_,
    ⟨fun _ _ hfd => (nomatch hfd), fun _ _ hfd => (nomatch hfd), fun _ _ _ hfd => (nomatch hfd)⟩, ?_⟩
  · refine (Finset.filter_eq_empty_iff.mpr fun fd hfd => ?_).trans UnorderedMap.keys_empty.symm
    obtain rfl := Finset.mem_singleton.mp hfd
    rw [Bool.not_eq_false]
    exact isEvfd_eq_true.mpr (.inl rfl)
  · refine ⟨fun roomId room hroom => ?_, fun roomId => ?_⟩
    · obtain ⟨i, _, rfl⟩ := room_of_createRooms hroom
      rfl
    · refine iff_of_false (Finset.notMem_empty roomId) ?_
      rintro ⟨room, hroom, hstate⟩
      obtain ⟨i, _, rfl⟩ := room_of_createRooms hroom
      cases hstate

theorem tables_of_reachable (h : system.Reachable s) : s.idle.TablesAgree s.pc.leaving :=
  h.invariant (P := fun s => s.idle.TablesAgree s.pc.leaving) (fun _ => tables_init)
    fun _ _ _ hreach htables hstep => tables_step hreach htables hstep

/-- Unless the clients of a new game are just being sent to it, the tables of the
idle room agree with each other, and a room that can be joined takes the users of
a new game without an exception. -/
theorem tablesAgree_of_reachable (h : system.Reachable s) (hpc : s.pc.leaving = []) :
    s.idle.TablesAgree [] ∧
      ∀ gameIdStr roomId epoll username1 username2, s.idle.joinableRoom gameIdStr = some roomId →
        ∃ idle, ({ s.idle with epoll := epoll } : IdleUsersRoom).setNewGameAsRunning roomId
          username1 username2 = .ok idle := by
  have htables := tables_of_reachable h
  rw [hpc] at htables
  refine ⟨htables, fun gameIdStr roomId epoll username1 username2 hjoin => ?_⟩
  obtain ⟨room, hroom, hidle⟩ := joinableRoom_eq_some hjoin
  have hcount := htables.rooms.users roomId room hroom
  rw [if_pos hidle] at hcount
  have hroom' : ({ s.idle with epoll := epoll } : IdleUsersRoom).gameRooms.get? roomId =
      some room := hroom
  obtain ⟨idle, hok, _⟩ := setNewGameAsRunning_ok hroom' hcount username1 username2
  exact ⟨idle, hok⟩

/-- The game of two clients is paused, and a third one is in the idle room. -/
theorem tablesAgree_of_reachable_paused : ∃ s, system.Reachable s ∧ s.pc = .waiting ∧
    s.idle.pausedGameRooms = {1} ∧ s.idle.TablesAgree [] := by
  have hcheck : ((oneRoom.bind (TransitionSystem.runActions step pauseGameOfTwo)).any fun s =>
      decide (s.pc = .waiting) && decide (s.idle.pausedGameRooms = {1})) = true := by
    decide +kernel
  obtain ⟨s, hreachable, hstate⟩ := exists_of_oneRoom hcheck
  rw [Bool.and_eq_true, decide_eq_true_eq, decide_eq_true_eq] at hstate
  obtain ⟨hpc, hpaused⟩ := hstate
  have hleaving : s.pc.leaving = [] := by rw [hpc]; rfl
  exact ⟨s, hreachable, hpc, hpaused, (tablesAgree_of_reachable hreachable hleaving).1⟩

end Server

end UpsServer
