import UpsServer.GameServer.Closings
import UpsServer.GameServer.Handling

open Relation

namespace UpsServer

/-- The room the idle thread is busy with. -/
def IdlePc.room : IdlePc → Option Int
  | .sending roomId _ _ _ | .changing roomId => some roomId
  | _ => none

namespace ServerAction

/-- The actions by which the idle thread goes on inside a handler. -/
def continues : ServerAction → Bool
  | .addNewClient | .newClientsDone | .message | .sendClient | .readDone | .applyStateChange
  | .stateChangesDone => true
  | _ => false

/-- The action by which the idle thread calls a handler. A client who is read has
sent `received`. -/
def calling (received : Option Str) (fd : Int) (evt : EventMask) : IdleHandler → ServerAction
  | .onNewClientConnect => .newClientEvent
  | .onClientWrite => .receive fd received
  | .onClientDisconnect => .disconnect fd evt
  | .onGameStateChange roomId => .stateChangeEvent roomId

end ServerAction

namespace Server

open IdleUsersRoom

/-- A step starts a game in a room: the room has no thread before, and has one
after it. -/
def StartsGame (roomId : Int) (step : Server × ServerAction × Server) : Prop :=
  step.1.games.get? roomId = none ∧ step.2.2.games.get? roomId ≠ none

/-- The rooms in which a game has been started. -/
def HadGame (steps : List (Server × ServerAction × Server)) (roomId : Int) : Prop :=
  ∃ step ∈ steps, StartsGame roomId step

variable {s s' : Server} {action : ServerAction} {fd : Int} {hadGame : Int → Prop}
  {steps : List (Server × ServerAction × Server)}

/-- The clients of the idle room do not have descriptors of queues. -/
theorem isEvfd_of_owns (hreach : system.Reachable s) (howns : s.idle.Owns fd) :
    s.idle.isEvfd fd = false := by
  obtain ⟨client, hclient⟩ := howns
  have hinvariant := invariant_of_reachable hreach
  refine socketsApart_of_reachable hreach fd (hinvariant.mem_sockets ?_)
  refine Multiset.mem_of_le (clientFds_le s.idle) (UnorderedMap.mem_tokens.mpr ⟨fd, client, hclient, ?_⟩)
  exact Multiset.mem_singleton.mpr (hinvariant.stored fd client hclient).symm

/-- Only clients of the idle room are read and dropped there. -/
theorem owns_of_handler {evt : EventMask} (h : s.idle.EventTable hadGame)
    (hhandler : s.idle.epoll.handler fd evt = some .onClientWrite ∨
      s.idle.epoll.handler fd evt = some .onClientDisconnect) : s.idle.Owns fd := by
  rcases hhandler with hhandler | hhandler
  · rcases (h.serves.handlers _ _ _).mp hhandler with ⟨howns, _⟩ | hqueue
    · exact howns
    · cases hqueue
  · rcases (h.serves.handlers _ _ _).mp hhandler with ⟨howns, _⟩ | hqueue
    · exact howns
    · cases hqueue

section Popped

/-- A change of state waits in the output of a room. -/
theorem exists_applyStateChange (hreach : system.Reachable s) (h : s.idle.EventTable hadGame)
    {roomId : Int} {room : GameRoom} {change : GameStateChange} {data : List GameStateChange}
    (hroom : s.idle.gameRooms.get? roomId = some room)
    (hdata : room.gameOutput.data = change :: data) :
    ∃ idle, (s.idle.modifyRoom roomId
      (GameRoom.withOutput { room.gameOutput with data := data })).applyStateChange roomId change =
        .ok idle ∧ idle.EventTable hadGame := by
  have hinvariant := invariant_of_reachable hreach
  have hheld := heldFds_popOutput hroom hdata
  have hnodup := hinvariant.nodup_idle
  rw [← hheld] at hnodup
  have hpopRoom : (s.idle.modifyRoom roomId
      (GameRoom.withOutput { room.gameOutput with data := data })).gameRooms.get? roomId =
        some (room.withOutput { room.gameOutput with data := data }) :=
    UnorderedMap.get?_modify_of_get? hroom _
  have hpopped : (s.idle.modifyRoom roomId
      (GameRoom.withOutput { room.gameOutput with data := data })).EventTable hadGame := by
    refine h.congr (sameEvfds_of_modify rfl rfl fun room' hroom' => ?_)
      (noneStarted_of_modify rfl fun _ _ hbusy => hbusy) (fun _ => Iff.rfl) rfl
    cases hroom.symm.trans hroom'
    rfl
  refine hpopped.applyStateChange hinvariant.stored hpopRoom (fun _ hidle => ?_) ?_ fun fd hfd => ?_
  · -- an idle room has no changes to report
    have hempty := ((hinvariant.phase roomId room hroom).of_idle hidle).2
    rw [hdata] at hempty
    cases hempty
  · exact Multiset.nodup_of_le (add_le_add_left (clientFds_le _) _) hnodup
  · rw [isEvfd_withOutput hroom data]
    refine socketsApart_of_reachable hreach fd (hinvariant.mem_sockets ?_)
    rw [← hheld]
    exact Multiset.mem_add.mpr (.inr hfd)

/-- A new client waits at the door. -/
theorem exists_addNewClient (hreach : system.Reachable s) (h : s.idle.EventTable hadGame)
    {clientFd : Int} {data : List Int} (hdata : s.idle.newClientsQueue.data = clientFd :: data) :
    ∃ idle, ({ s.idle with newClientsQueue := { s.idle.newClientsQueue with data := data } } :
      IdleUsersRoom).addNewClient clientFd = .ok idle ∧ idle.EventTable hadGame := by
  obtain ⟨hstranger, hsocket⟩ := (invariant_of_reachable hreach).stranger hdata
  have hpopped : ({ s.idle with newClientsQueue := { s.idle.newClientsQueue with data := data } } :
      IdleUsersRoom).EventTable hadGame :=
    h.congr (sameEvfds_of_rooms rfl rfl) (noneStarted_of_rooms rfl) (fun _ => Iff.rfl) rfl
  exact hpopped.addNewClient hstranger (socketsApart_of_reachable hreach clientFd hsocket)

end Popped

/-- The sockets a game closes are none that the idle thread watches. -/
theorem notMem_keys_of_game (hreach : system.Reachable s) (h : s.idle.EventTable hadGame)
    {roomId : Int} {action : GameAction} (hstep : s.step (.game roomId action) = some s')
    (hsame : s'.idle.clientsMap = s.idle.clientsMap)
    (hfd : fd ∈ s.closedBy (.game roomId action)) : fd ∉ s.idle.epoll.monitoredFds.keys := by
  have hinvariant := invariant_of_reachable hreach
  obtain ⟨hopen, hclosed⟩ := closed_of_step hinvariant hstep hfd
  refine h.notMem_keys (socketsApart_of_reachable hreach fd hopen) ?_
  rintro ⟨client, hclient⟩
  rw [← hsame] at hclient
  have hinvariant' := hinvariant.step hstep
  refine hclosed (hinvariant'.mem_sockets (Multiset.mem_of_le (clientFds_le s'.idle) ?_))
  refine UnorderedMap.mem_tokens.mpr ⟨fd, client, hclient, ?_⟩
  exact Multiset.mem_singleton.mpr (hinvariant'.stored fd client hclient).symm

/-- Only a message can make another room report. -/
theorem eventTable_step_of_ne (hreach : system.Reachable s) (h : s.idle.EventTable hadGame)
    (hstep : s.step action = some s') (hother : action ≠ .message) : s'.idle.EventTable hadGame := by
  have hinvariant := invariant_of_reachable hreach
  have hstored := hinvariant.stored
  have hstrangers : ∀ fd, s.idle.Owns fd → s.idle.isEvfd fd = false :=
    fun fd => isEvfd_of_owns hreach
  cases effect_of_step hstored hstep with
  | accept _ heq | newClientEvent heq =>
    subst heq
    exact h.congr (sameEvfds_of_rooms rfl rfl) (noneStarted_of_rooms rfl) (fun _ => Iff.rfl) rfl
  | handlerDone _ heq =>
    subst heq
    exact h
  | addNewClient =>
    obtain ⟨clientFd, data, hdata, hadd, _⟩ := addNewClient_of_step hstep
    obtain ⟨idle, hok, htable⟩ := exists_addNewClient hreach h hdata
    cases hadd.symm.trans hok
    exact htable
  | receive hreceive heq =>
    subst heq
    obtain ⟨⟨_, hhandler⟩, _⟩ := Option.ite_none_right_eq_some.mp hstep
    obtain ⟨_, _, hok, htable⟩ := h.receiveMessages hstored hstrangers
      (owns_of_handler h (.inl hhandler)) _
    cases hreceive.symm.trans hok
    exact htable
  | answer | startGame => exact (hother rfl).elim
  | sendClient _ hsend heq =>
    subst heq
    obtain ⟨client, room, hclient, _, hroom, _⟩ := sendClientToGameThread_eq_ok hstored hsend
    have howns : s.idle.Owns _ := ⟨client, hclient⟩
    obtain ⟨_, hok, htable⟩ :=
      h.sendClientToGameThread hstored howns (hstrangers _ howns) ⟨room, hroom⟩
    cases hsend.symm.trans hok
    exact htable
  | disconnect heq =>
    subst heq
    obtain ⟨⟨_, hhandler⟩, _⟩ := Option.ite_none_right_eq_some.mp hstep
    exact h.onClientDisconnect hstored (hstrangers _ (owns_of_handler h (.inr hhandler)))
  | stateChangeEvent heq =>
    subst heq
    exact h.congr (sameEvfds_of_modify rfl rfl fun _ _ => rfl)
      (noneStarted_of_modify rfl fun _ _ hbusy => hbusy) (fun _ => Iff.rfl) rfl
  | applyStateChange hroom hdata happly heq =>
    subst heq
    obtain ⟨_, hok, htable⟩ := exists_applyStateChange hreach h hroom hdata
    cases happly.symm.trans hok
    exact htable
  | @game roomId action room stored t' hown hroom hstored hgo heq =>
    have hclosings : ∀ fd ∈ s.closedBy (.game roomId action), fd ∉ s.idle.epoll.monitoredFds.keys :=
      fun fd hfd => notMem_keys_of_game hreach h hstep (by rw [heq]; rfl) hfd
    rw [closedBy_game hroom hstored hgo] at hclosings
    subst heq
    refine (h.kernelCloses hclosings).congr (sameEvfds_of_modify rfl rfl fun room' hroom' => ?_)
      (noneStarted_of_modify rfl fun _ _ hbusy => hbusy) (fun _ => Iff.rfl) rfl
    cases hroom.symm.trans hroom'
    exact (GameThread.handover_step hown hgo).outputEvfd

private theorem not_startsGame (hstored : s.idle.StoredUnderOwnFd) (hstep : s.step action = some s')
    (hother : action ≠ .message) (roomId : Int) : ¬ StartsGame roomId (s, action, s') := by
  rintro ⟨hnone, hsome⟩
  change s.games.get? roomId = none at hnone
  refine hsome ?_
  cases effect_of_step hstored hstep with
  | answer | startGame => exact (hother rfl).elim
  | accept _ heq | handlerDone _ heq | newClientEvent heq | addNewClient _ _ heq | receive _ heq
  | sendClient _ _ heq | disconnect heq | stateChangeEvent heq | applyStateChange _ _ _ heq =>
    subst heq
    exact hnone
  | @game roomId' action room stored t' _ _ hstored _ heq =>
    subst heq
    have hne : roomId ≠ roomId' := by
      rintro rfl
      cases hnone.symm.trans hstored
    simp only [withThread]
    split
    · rw [UnorderedMap.get?_erase, if_neg hne]
      exact hnone
    · rw [UnorderedMap.get?_set, if_neg hne]
      exact hnone

/-- A message starts the game that its answer asks for. -/
theorem startsGame_of_message (hreach : system.Reachable s) (hstep : s.step .message = some s') :
    ∃ clientFd msg client newGame, s.idle.clientsMap.get? clientFd = some client ∧
      Answer s.idle msg clientFd client s'.idle newGame ∧
      ∀ roomId, StartsGame roomId (s, .message, s') ↔ newGame.map (·.roomId) = some roomId := by
  have hinvariant := invariant_of_reachable hreach
  obtain ⟨clientFd, msg, messages, client, ⟨idle, newGame⟩, _, hclient, hanswer, hafter⟩ :=
    answered_of_message hinvariant.stored hstep
  cases newGame with
  | none =>
    cases hafter
    exact ⟨clientFd, msg, client, none, hclient, hanswer, fun _ =>
      iff_of_false (fun hstarts => hstarts.2 hstarts.1) nofun⟩
  | some newGame =>
    cases hanswer with
    | @starts gameId client2 _ hstays hname hne hidle hwaiting hnew =>
      obtain ⟨room, g, hroom, _, rfl⟩ := startGame_eq_some hnew hafter
      refine ⟨clientFd, msg, client, _, hclient,
        .starts hstays hname hne hidle hwaiting hnew, fun roomId => ?_⟩
      obtain ⟨room', hroom', hstate⟩ := hidle
      have hnone := ((hinvariant.phase gameId room' hroom').of_idle hstate).1
      simp only [StartsGame, UnorderedMap.get?_set, Option.map_some, Option.some_inj]
      by_cases hsame : roomId = gameId
      · subst hsame
        simp [hnone]
      · simp [hsame, Ne.symm hsame]

/-- The rooms that report are those in which a game has been started. -/
theorem eventTable_step (hreach : system.Reachable s) (h : s.idle.EventTable hadGame)
    (hstep : s.step action = some s') :
    s'.idle.EventTable fun roomId => StartsGame roomId (s, action, s') ∨ hadGame roomId := by
  have hstored := (invariant_of_reachable hreach).stored
  by_cases hmessage : action = .message
  · subst hmessage
    obtain ⟨clientFd, msg, client, newGame, hclient, hanswer, hstarts⟩ :=
      startsGame_of_message hreach hstep
    have htable := h.answer hstored (tables_of_reachable hreach) (fun _ => isEvfd_of_owns hreach)
      hclient hanswer
    exact htable.of_iff fun roomId => or_congr_left (hstarts roomId)
  · exact (eventTable_step_of_ne hreach h hstep hmessage).of_iff fun roomId =>
      or_iff_right (not_startsGame hstored hstep hmessage roomId)

/-- The rooms are numbered up to the room count, and report by their own output. -/
theorem outputEvfd_of_createRooms {inputEvfd outputEvfd : Nat → Int} {roomCount : Nat} {roomId : Int}
    {room : GameRoom}
    (h : (IdleUsersRoom.createRooms inputEvfd outputEvfd roomCount).get? roomId = some room) :
    ∃ i < roomCount, roomId = (i + 1 : Nat) ∧ room.gameOutput.evfd = outputEvfd (i + 1) := by
  induction roomCount with
  | zero => cases h
  | succ n ih =>
    rw [IdleUsersRoom.createRooms, List.range_succ, List.foldl_append, List.foldl_cons,
      List.foldl_nil, UnorderedMap.get?_set] at h
    split at h
    · rename_i heq
      cases h
      exact ⟨n, Nat.lt_succ_self n, heq, rfl⟩
    · obtain ⟨i, hi, hroom⟩ := ih h
      exact ⟨i, Nat.lt_succ_of_lt hi, hroom⟩

theorem evfdsApart_init (h : system.init s) : s.idle.EvfdsApart := by
  obtain ⟨newClientsEvfd, inputEvfd, outputEvfd, roomCount, maxPlayerCount, hnodup, hstart, _⟩ := h
  obtain ⟨epoll, _, hidle⟩ := bind_eq_ok.mp hstart
  obtain ⟨idle, pc, games, sockets⟩ := s
  cases hidle
  obtain ⟨hnew, hrooms⟩ := List.nodup_cons.mp hnodup
  refine ⟨fun roomId houtput => ?_, fun roomId roomId' fd houtput houtput' => ?_⟩
  · obtain ⟨room, hroom, hfd⟩ := Option.map_eq_some_iff.mp houtput
    obtain ⟨i, hi, _, hevfd⟩ := outputEvfd_of_createRooms hroom
    refine hnew (List.mem_flatMap.mpr ⟨i, List.mem_range.mpr hi, ?_⟩)
    have hsame : room.gameOutput.evfd = newClientsEvfd := hfd
    rw [← hsame, hevfd]
    exact List.mem_cons_of_mem _ List.mem_cons_self
  · obtain ⟨room, hroom, hfd⟩ := Option.map_eq_some_iff.mp houtput
    obtain ⟨room', hroom', hfd'⟩ := Option.map_eq_some_iff.mp houtput'
    obtain ⟨i, hi, rfl, hevfd⟩ := outputEvfd_of_createRooms hroom
    obtain ⟨j, hj, rfl, hevfd'⟩ := outputEvfd_of_createRooms hroom'
    by_contra hne
    have hsymm : Std.Symm (Function.onFun List.Disjoint fun i : Nat =>
        [inputEvfd (i + 1), outputEvfd (i + 1)]) := ⟨fun _ _ hdisjoint => hdisjoint.symm⟩
    have hdisjoint := (List.nodup_flatMap.mp hrooms).2.forall (List.mem_range.mpr hi)
      (List.mem_range.mpr hj) fun heq => hne (by rw [heq])
    have hsame : outputEvfd (i + 1) = outputEvfd (j + 1) := by rw [← hevfd, hfd, ← hevfd', hfd']
    refine hdisjoint (List.mem_cons_of_mem _ List.mem_cons_self) ?_
    rw [hsame]
    exact List.mem_cons_of_mem _ List.mem_cons_self

theorem eventTable_init (h : system.init s) : s.idle.EventTable (HadGame []) := by
  have hapart := evfdsApart_init h
  obtain ⟨newClientsEvfd, inputEvfd, outputEvfd, roomCount, maxPlayerCount, _, hstart, _⟩ := h
  obtain ⟨epoll, hepoll, hidle⟩ := bind_eq_ok.mp hstart
  obtain ⟨idle, pc, games, sockets⟩ := s
  cases hidle
  obtain ⟨epoll', hadd, hkeys, hmode, hserves⟩ :=
    (Epoll.serves_empty true).addEventHandler newClientsEvfd EPOLLIN IdleHandler.onNewClientConnect
  cases hepoll.symm.trans hadd
  refine ⟨hserves.congr fun fd evt x => ?_, hmode, hapart, fun fd hfd => ?_,
    fun roomId room hroom hbusy => ?_⟩
  · simp only [Epoll.contains_EPOLLIN]
    constructor
    · intro hx
      split at hx
      · rename_i hsignalled
        rw [hx]
        exact .inr (.newClient hsignalled.1 hsignalled.2)
      · exact hx.elim
    · rintro (⟨⟨_, hclient⟩, _⟩ | hqueue)
      · cases hclient
      · cases hqueue with
        | newClient hfd hevt => rw [if_pos ⟨hfd, hevt⟩]
        | stateChange hgame =>
          -- no room reports yet
          obtain ⟨_, hstep, _⟩ := hgame
          exact (List.not_mem_nil hstep).elim
  · rw [hkeys] at hfd
    exact .inr (.inl (Finset.mem_singleton.mp hfd))
  · exact (hbusy (get?_createRooms hroom).1).elim

theorem eventTable_of_run (h : system.Run steps s) : s.idle.EventTable (HadGame steps) := by
  induction h with
  | init hinit => exact eventTable_init hinit
  | step hrun hstep ih =>
    refine (eventTable_step hrun.reachable ih hstep).of_iff fun roomId => ?_
    simp only [HadGame, List.mem_append, List.mem_singleton, or_and_right, exists_or,
      exists_eq_left]
    exact or_comm

theorem eventTable_of_reachable (h : system.Reachable s) : ∃ hadGame, s.idle.EventTable hadGame := by
  obtain ⟨steps, hrun⟩ := h.exists_run
  exact ⟨HadGame steps, eventTable_of_run hrun⟩

/-- Whatever the threads have done, the handlers that are registered are those for
the clients of the idle room, for the queue of new clients and for the rooms in
which a game has been started, and the kernel has been told to listen for exactly
these. A room that has a game is among them, and one whose game has ended still is. -/
theorem dispatches_of_run (h : system.Run steps s) :
    (∀ fd evt x, s.idle.epoll.handler fd evt = some x ↔ s.idle.Dispatches (HadGame steps) fd evt x) ∧
      s.idle.KernelListens (HadGame steps) ∧
      ∀ roomId room, s.idle.gameRooms.get? roomId = some room → room.gameState ≠ .IDLE →
        HadGame steps roomId :=
  ⟨(eventTable_of_run h).serves.handlers,
    (eventTable_of_run h).kernelListens fun _ => isEvfd_of_owns h.reachable, (eventTable_of_run h).busy⟩

/-- The game of the only room has ended, and the room is still listened to. -/
theorem dispatches_of_run_left : ∃ steps s, system.Run steps s ∧
    (∃ room, s.idle.gameRooms.get? 1 = some room ∧ room.gameState = .IDLE) ∧ HadGame steps 1 ∧
    s.idle.Dispatches (HadGame steps) 102 EPOLLIN (.onGameStateChange 1) ∧
    s.idle.KernelListens (HadGame steps) := by
  have hcheck : ((oneRoom.bind (TransitionSystem.runActions step leaveGameOfTwo)).any fun s =>
      (s.idle.gameRooms.get? 1).any (fun room => decide (room.gameState = .IDLE)) &&
        decide (s.idle.epoll.handler 102 EPOLLIN = some (.onGameStateChange 1))) = true := by
    decide +kernel
  obtain ⟨s, hreachable, hstate⟩ := exists_of_oneRoom hcheck
  rw [Bool.and_eq_true, Option.any_eq_true, decide_eq_true_iff] at hstate
  obtain ⟨⟨room, hroom, hidle⟩, hhandler⟩ := hstate
  obtain ⟨steps, hrun⟩ := hreachable.exists_run
  obtain ⟨hdispatches, hlistens, _⟩ := dispatches_of_run hrun
  have hdispatch := (hdispatches _ _ _).mp hhandler
  refine ⟨steps, s, hrun, ⟨room, hroom, of_decide_eq_true hidle⟩, ?_, hdispatch, hlistens⟩
  rcases hdispatch with ⟨_, hclient⟩ | hqueue
  · obtain ⟨_, hx⟩ | ⟨_, hx⟩ := hclient <;> cases hx
  · cases hqueue with
    | stateChange hgame => exact hgame

/-- In the middle of a handler the idle thread knows the room and the clients it
is busy with. -/
structure PcOk (s : Server) : Prop where
  changing : ∀ roomId, s.pc = .changing roomId → ∃ room, s.idle.gameRooms.get? roomId = some room
  sending : ∀ roomId clients clientFd messages, s.pc = .sending roomId clients clientFd messages →
    clients ≠ [] ∧ clients.Nodup ∧ (∀ fd ∈ clients, s.idle.Owns fd) ∧
      ∃ room, s.idle.gameRooms.get? roomId = some room

private theorem pcOk_of_room (hpc : s.pc.room = none) : s.PcOk := by
  refine ⟨fun roomId hchanging => ?_, fun roomId clients clientFd messages hsending => ?_⟩
  · rw [hchanging] at hpc
    cases hpc
  · rw [hsending] at hpc
    cases hpc

private theorem exists_room_modify {rooms : UnorderedMap Int GameRoom} {roomId id : Int} {f : GameRoom → GameRoom}
    (h : ∃ room, rooms.get? id = some room) : ∃ room, (rooms.modify roomId f).get? id = some room := by
  rw [← UnorderedMap.mem_keys, UnorderedMap.keys_modify]
  exact UnorderedMap.mem_keys.mpr h

theorem pcOk_step (hreach : system.Reachable s) (h : s.PcOk) (hstep : s.step action = some s') :
    s'.PcOk := by
  have hstored := (invariant_of_reachable hreach).stored
  cases effect_of_step hstored hstep with
  | accept _ heq =>
    subst heq
    exact ⟨h.changing, h.sending⟩
  | handlerDone _ heq | newClientEvent heq | addNewClient _ _ heq | receive _ heq | answer _ _ _ heq
  | disconnect heq =>
    subst heq
    exact pcOk_of_room rfl
  | startGame =>
    obtain ⟨clientFd, msg, messages, client, newGame, hclient, hanswer, hpc⟩ :=
      answer_of_message hstored hstep
    cases newGame with
    | none => exact pcOk_of_room (by rw [hpc]; rfl)
    | some newGame =>
      generalize hafter : s'.idle = idle at hanswer
      cases hanswer with
      | @starts gameId client2 _ _ _ hne hidle hwaiting hnew =>
        obtain ⟨room, hroom, _⟩ := hidle
        obtain ⟨player2, hplayer2, _⟩ :=
          (tables_of_reachable hreach).waiting.named client2 gameId (waitingClient_eq_some hwaiting)
        obtain ⟨_, _, _, rfl⟩ := newGameThread_eq_ok hnew
        refine ⟨fun _ hpc' => (by cases hpc.symm.trans hpc'), fun _ _ _ _ hpc' => ?_⟩
        cases hpc.symm.trans hpc'
        refine ⟨List.cons_ne_nil _ _, ?_, fun fd hfd => ?_, ?_⟩
        · exact List.nodup_cons.mpr ⟨fun hmem => hne (List.mem_singleton.mp hmem).symm,
            List.nodup_singleton client2⟩
        · rw [Owns, hafter]
          rcases List.mem_cons.mp hfd with rfl | hfd
          · exact ⟨client, hclient⟩
          · rw [List.mem_singleton.mp hfd]
            exact ⟨player2, hplayer2⟩
        · rw [hafter]
          exact exists_room_modify ⟨room, hroom⟩
  | @sendClient roomId client clientFd clients messages idle hpc hsend heq =>
    subst heq
    obtain ⟨_, hnodup, howns, hroom⟩ := h.sending _ _ _ _ hpc
    obtain ⟨hnot, hnodup⟩ := List.nodup_cons.mp hnodup
    have hleft : ∀ fd, idle.Owns fd ↔ s.idle.Owns fd ∧ fd ≠ client := fun _ =>
      owns_sendClientToGameThread hstored hsend
    obtain ⟨moved, room, _, _, _, rfl⟩ := sendClientToGameThread_eq_ok hstored hsend
    cases clients with
    | nil => exact pcOk_of_room rfl
    | cons next clients =>
      refine ⟨fun _ hpc' => (by cases hpc'), fun _ _ _ _ hpc' => ?_⟩
      cases hpc'
      refine ⟨List.cons_ne_nil _ _, hnodup, fun fd hfd => (hleft fd).mpr ⟨?_, ?_⟩,
        exists_room_modify hroom⟩
      · exact howns fd (List.mem_cons_of_mem _ hfd)
      · rintro rfl
        exact hnot hfd
  | stateChangeEvent heq =>
    subst heq
    obtain ⟨⟨_, hroom⟩, _⟩ := Option.ite_none_right_eq_some.mp hstep
    obtain ⟨room, hroom, _⟩ := (Option.any_eq_true ..).mp hroom
    refine ⟨fun _ hpc' => ?_, fun _ _ _ _ hpc' => by cases hpc'⟩
    cases hpc'
    exact exists_room_modify ⟨room, hroom⟩
  | @applyStateChange roomId _ _ _ idle hroom hdata happly heq =>
    subst heq
    obtain ⟨f, hrooms, _⟩ := gameRooms_applyStateChange happly
    refine ⟨fun _ hpc' => ?_, fun _ _ _ _ hpc' => by cases hpc'⟩
    cases hpc'
    change ∃ room, idle.gameRooms.get? roomId = some room
    rw [hrooms]
    exact exists_room_modify (exists_room_modify ⟨_, hroom⟩)
  | game hown hroom hstored hgo heq =>
    subst heq
    refine ⟨fun roomId hpc => exists_room_modify (h.changing roomId hpc),
      fun roomId clients clientFd messages hpc => ?_⟩
    obtain ⟨hne, hnodup, howns, hroom⟩ := h.sending roomId clients clientFd messages hpc
    exact ⟨hne, hnodup, howns, exists_room_modify hroom⟩

theorem pcOk_of_reachable (h : system.Reachable s) : s.PcOk := by
  refine h.invariant (P := PcOk) (fun s hinit => ?_) fun _ _ _ hreach hok hstep =>
    pcOk_step hreach hok hstep
  obtain ⟨_, _, _, _, _, _, _, hpc, _⟩ := hinit
  exact pcOk_of_room (by rw [hpc]; rfl)

section Turns

variable (hreach : system.Reachable s)
include hreach

private theorem exists_step_collecting (hpc : s.pc = .collecting) :
    s.idle.newClientsQueue.isEmpty = true ∧ s.step .newClientsDone = some { s with pc := .waiting } ∨
      ∃ s', s.step .addNewClient = some s' := by
  cases hempty : s.idle.newClientsQueue.isEmpty with
  | true => exact .inl ⟨rfl, if_pos ⟨hpc, hempty⟩⟩
  | false =>
    obtain ⟨clientFd, data, hdata⟩ := EventfdQueue.exists_of_isEmpty_eq_false hempty
    obtain ⟨hadGame, htable⟩ := eventTable_of_reachable hreach
    obtain ⟨idle, hadd, _⟩ := exists_addNewClient hreach htable hdata
    refine .inr ⟨s.withIdle .collecting idle, ?_⟩
    rw [step, if_pos hpc, EventfdQueue.pop_eq_some.mpr ⟨data, hdata, rfl⟩, Option.bind_some]
    exact congrArg (s.resume .collecting) hadd

private theorem exists_step_changing {roomId : Int} (hpc : s.pc = .changing roomId) :
    s.step .stateChangesDone = some { s with pc := .waiting } ∨
      ∃ s', s.step .applyStateChange = some s' := by
  obtain ⟨room, hroom⟩ := (pcOk_of_reachable hreach).changing roomId hpc
  cases hempty : room.gameOutput.isEmpty with
  | true =>
    refine .inl ?_
    simp only [step, hpc, hroom]
    exact if_pos hempty
  | false =>
    obtain ⟨change, data, hdata⟩ := EventfdQueue.exists_of_isEmpty_eq_false hempty
    obtain ⟨hadGame, htable⟩ := eventTable_of_reachable hreach
    obtain ⟨idle, happly, _⟩ := exists_applyStateChange hreach htable hroom hdata
    refine .inr ⟨s.withIdle (.changing roomId) idle, ?_⟩
    simp only [step, hpc, hroom, Option.bind_some,
      EventfdQueue.pop_eq_some.mpr ⟨data, hdata, rfl⟩, happly]
    rfl

private theorem exists_step_sending {roomId client clientFd : Int} {clients : List Int}
    {messages : List ProtocolData} (hpc : s.pc = .sending roomId (client :: clients) clientFd messages) :
    ∃ s', s.step .sendClient = some s' := by
  obtain ⟨_, _, howns, hroom⟩ := (pcOk_of_reachable hreach).sending _ _ _ _ hpc
  have hclient := howns client List.mem_cons_self
  obtain ⟨hadGame, htable⟩ := eventTable_of_reachable hreach
  obtain ⟨idle, hsend, _⟩ := htable.sendClientToGameThread
    (invariant_of_reachable hreach).stored hclient (isEvfd_of_owns hreach hclient) hroom
  refine ⟨s.withIdle (afterSend roomId clients clientFd messages) idle, ?_⟩
  simp only [step, hpc, hsend]
  rfl

omit hreach in
private theorem exists_startGame {roomId : Int} (h : ∃ room, s.idle.gameRooms.get? roomId = some room) :
    ∃ s', s.startGame roomId = some s' := by
  obtain ⟨room, hroom⟩ := h
  obtain ⟨epoll, hadd, _⟩ := (Epoll.serves_empty true).addEventHandler room.gameInput.evfd EPOLLIN
    GameHandler.onNewClientConnect
  rw [startGame, hroom, Option.bind_some, Game.start, hadd]
  exact ⟨_, rfl⟩

private theorem exists_step_reading {clientFd : Int} {msg : ProtocolData} {messages : List ProtocolData}
    (hpc : s.pc = .reading clientFd (msg :: messages)) (howns : s.idle.Owns clientFd) :
    ∃ s', s.step .message = some s' := by
  obtain ⟨client, hclient⟩ := howns
  obtain ⟨hadGame, htable⟩ := eventTable_of_reachable hreach
  obtain ⟨idle, newGame, hprocess⟩ := htable.exists_processClientMessage
    (tables_of_reachable hreach) (fun _ => isEvfd_of_owns hreach) hclient msg
  simp only [step, hpc, hprocess]
  cases newGame with
  | none => exact ⟨_, rfl⟩
  | some newGame =>
    obtain ⟨_, _, hanswer⟩ :=
      answer_of_processClientMessage (invariant_of_reachable hreach).stored hprocess
    cases hanswer with
    | @starts gameId client2 _ _ _ _ hidle _ hnew =>
      obtain ⟨room, hroom, _⟩ := hidle
      obtain ⟨_, _, _, rfl⟩ := newGameThread_eq_ok hnew
      exact exists_startGame (exists_room_modify ⟨room, hroom⟩)

/-- A message can be processed exactly if its sender is in the idle room. -/
theorem step_message_iff {clientFd : Int} {msg : ProtocolData} {messages : List ProtocolData}
    (hpc : s.pc = .reading clientFd (msg :: messages)) :
    (∃ s', s.step .message = some s') ↔ s.idle.Owns clientFd := by
  refine ⟨fun h => ?_, exists_step_reading hreach hpc⟩
  obtain ⟨s', hstep⟩ := h
  obtain ⟨clientFd', msg', messages', client, _, hpc', hclient, _⟩ :=
    answered_of_message (invariant_of_reachable hreach).stored hstep
  cases hpc.symm.trans hpc'
  exact ⟨client, hclient⟩

/-- An event that has a handler can be handled. -/
theorem exists_step_calling (hpc : s.pc = .waiting) {evt : EventMask} {x : IdleHandler}
    (hhandler : s.idle.epoll.handler fd evt = some x) (received : Option Str) :
    ∃ s', s.step (.calling received fd evt x) = some s' := by
  obtain ⟨hadGame, htable⟩ := eventTable_of_reachable hreach
  rcases (htable.serves.handlers fd evt x).mp hhandler with ⟨howns, hclient⟩ | hqueue
  · rcases hclient with ⟨rfl, rfl⟩ | ⟨_, rfl⟩
    · obtain ⟨messages, idle, hreceive, _⟩ := htable.receiveMessages
        (invariant_of_reachable hreach).stored (fun _ => isEvfd_of_owns hreach) howns received
      refine ⟨s.withIdle (.reading fd messages) idle, ?_⟩
      rw [ServerAction.calling, step, if_pos ⟨hpc, hhandler⟩, hreceive]
    · exact ⟨_, if_pos ⟨hpc, hhandler⟩⟩
  · cases hqueue with
    | newClient hfd hevt =>
      rw [hfd, hevt] at hhandler
      exact ⟨_, if_pos ⟨hpc, hhandler⟩⟩
    | stateChange _ houtput hevt =>
      obtain ⟨room, hroom, rfl⟩ := Option.map_eq_some_iff.mp houtput
      refine ⟨_, if_pos ⟨hpc, (Option.any_eq_true ..).mpr ⟨room, hroom, ?_⟩⟩⟩
      rw [beq_iff_eq, ← hhandler, hevt]

/-- Whatever the threads do, and provided that every `send` returns, the idle thread
never throws: between two events every event that has a handler can be handled, and
in a handler the thread can go on as long as it does not come to a message of a
client it has deleted. -/
theorem canGoOn_of_reachable :
    (s.pc = .waiting → ∀ fd evt x received, s.idle.epoll.handler fd evt = some x →
      ∃ s', s.step (.calling received fd evt x) = some s') ∧
      (s.pc ≠ .waiting →
        ((∃ action s', action.continues = true ∧ s.step action = some s') ↔ s.OwnsSender)) := by
  refine ⟨fun hpc fd evt x received hhandler => exists_step_calling hreach hpc hhandler received,
    fun hbusy => ⟨?_, fun howns => ?_⟩⟩
  · rintro ⟨action, s', hcontinues, hstep⟩ clientFd msg messages hpc
    refine (step_message_iff hreach hpc).mp ⟨s', ?_⟩
    cases action with
    | message => exact hstep
    | addNewClient | newClientsDone | sendClient | readDone | applyStateChange | stateChangesDone =>
      simp [step, hpc] at hstep
    | _ => cases hcontinues
  · cases hpc : s.pc with
    | waiting => exact (hbusy hpc).elim
    | collecting =>
      rcases exists_step_collecting hreach hpc with ⟨_, hdone⟩ | ⟨s', hstep⟩
      · exact ⟨_, _, rfl, hdone⟩
      · exact ⟨_, s', rfl, hstep⟩
    | reading clientFd messages =>
      cases messages with
      | nil => exact ⟨.readDone, { s with pc := .waiting }, rfl, by simp only [step, hpc]⟩
      | cons msg messages =>
        obtain ⟨s', hstep⟩ := (step_message_iff hreach hpc).mpr (howns _ _ _ hpc)
        exact ⟨_, s', rfl, hstep⟩
    | sending roomId clients clientFd messages =>
      obtain ⟨client, clients, rfl⟩ := List.exists_cons_of_ne_nil
        ((pcOk_of_reachable hreach).sending _ _ _ _ hpc).1
      obtain ⟨s', hstep⟩ := exists_step_sending hreach hpc
      exact ⟨_, s', rfl, hstep⟩
    | changing roomId =>
      rcases exists_step_changing hreach hpc with hdone | ⟨s', hstep⟩
      · exact ⟨_, _, rfl, hdone⟩
      · exact ⟨_, s', rfl, hstep⟩

end Turns

/-- A game has just been started, and its clients are still to be sent to it. -/
theorem exists_reachable_sending : ∃ s, system.Reachable s ∧ s.pc ≠ .waiting ∧ s.OwnsSender := by
  have hcheck : ((oneRoom.bind (TransitionSystem.runActions step startGameOfTwo)).any fun s =>
      decide (s.pc = .sending 1 [11, 10] 11 [])) = true := by
    decide +kernel
  obtain ⟨s, hreachable, hpc⟩ := exists_of_oneRoom hcheck
  rw [decide_eq_true_iff] at hpc
  refine ⟨s, hreachable, by rw [hpc]; exact nofun, fun _ _ _ hreading => ?_⟩
  cases hpc.symm.trans hreading

theorem canGoOn_of_reachable_sending : ∃ s, system.Reachable s ∧ s.pc ≠ .waiting ∧
    ∃ action s', action.continues = true ∧ s.step action = some s' := by
  obtain ⟨s, hreachable, hbusy, howns⟩ := exists_reachable_sending
  exact ⟨s, hreachable, hbusy, ((canGoOn_of_reachable hreachable).2 hbusy).mpr howns⟩

/-- How many steps a handler can take at most. -/
def turns (s : Server) : Nat :=
  match s.pc with
  | .waiting => 0
  | .collecting => s.idle.newClientsQueue.data.length + 1
  | .reading _ messages => 3 * messages.length + 1
  | .sending _ clients _ messages => clients.length + 3 * messages.length + 1
  | .changing roomId =>
    (s.idle.gameRooms.get? roomId).elim 0 (fun room => room.gameOutput.data.length) + 1

private theorem turns_pos (hpc : s.pc ≠ .waiting) : 0 < s.turns := by
  rw [turns]
  split
  · rename_i hwaiting
    exact (hpc hwaiting).elim
  all_goals exact Nat.succ_pos _

private theorem pc_of_continues (hcontinues : action.continues = true) (hstep : s.step action = some s') :
    s.pc ≠ .waiting := by
  intro hpc
  cases action with
  | addNewClient | newClientsDone | message | sendClient | readDone | applyStateChange
  | stateChangesDone => simp [step, hpc] at hstep
  | _ => cases hcontinues

theorem turns_lt (hstored : s.idle.StoredUnderOwnFd) (hcontinues : action.continues = true)
    (hstep : s.step action = some s') : s'.turns < s.turns := by
  cases effect_of_step hstored hstep with
  | accept | newClientEvent | receive | disconnect | stateChangeEvent | game => cases hcontinues
  | handlerDone _ heq =>
    subst heq
    exact turns_pos (pc_of_continues hcontinues hstep)
  | @addNewClient clientFd data idle hdata hadmits heq =>
    subst heq
    obtain ⟨hpc, _⟩ := Option.ite_none_right_eq_some.mp hstep
    simp only [turns, hpc, withIdle, hadmits.newClientsQueue, hdata, List.length_cons]
    omega
  | answer hpc _ _ heq =>
    subst heq
    simp only [turns, hpc, withIdle, List.length_cons]
    omega
  | startGame hpc _ _ _ _ _ _ heq =>
    subst heq
    simp only [turns, hpc, withIdle, List.length_cons, List.length_nil]
    omega
  | @sendClient roomId client clientFd clients messages idle hpc _ heq =>
    subst heq
    cases clients with
    | nil =>
      simp only [turns, hpc, withIdle, afterSend, if_true, List.length_cons, List.length_nil]
      omega
    | cons next clients =>
      simp only [turns, hpc, withIdle, afterSend_cons, List.length_cons]
      omega
  | @applyStateChange roomId room change data idle hroom hdata happly heq =>
    subst heq
    obtain ⟨roomId', _, _, _, _, hpc, _, _, _, hs'⟩ := applyStateChange_of_step hstep
    have hsame : IdlePc.changing roomId = .changing roomId' := congrArg Server.pc hs'
    cases hsame
    obtain ⟨f, hrooms, hf⟩ := gameRooms_applyStateChange happly
    have hroom' : idle.gameRooms.get? roomId =
        some (f (room.withOutput { room.gameOutput with data := data })) := by
      rw [hrooms]
      exact UnorderedMap.get?_modify_of_get? (UnorderedMap.get?_modify_of_get? hroom _) _
    simp only [turns, hpc, withIdle, hroom, hroom', Option.elim, hf, hdata, List.length_cons]
    exact Nat.lt_succ_self _

/-- The idle thread goes on in its handler. -/
def Turn (s s' : Server) : Prop := ∃ action, action.continues = true ∧ s.step action = some s'

/-- Left alone, and provided that every `send` returns, the idle thread comes back to
its event loop, unless it comes to a message of a client it has deleted. -/
theorem returns_of_reachable (h : system.Reachable s) :
    ∃ s', ReflTransGen Turn s s' ∧ (s'.pc = .waiting ∨ ¬ s'.OwnsSender) := by
  induction hturns : s.turns using Nat.strong_induction_on generalizing s with
  | h n ih =>
    by_cases hpc : s.pc = .waiting
    · exact ⟨s, .refl, .inl hpc⟩
    by_cases howns : s.OwnsSender
    · obtain ⟨action, next, hcontinues, hstep⟩ := ((canGoOn_of_reachable h).2 hpc).mpr howns
      have hlt := turns_lt (invariant_of_reachable h).stored hcontinues hstep
      obtain ⟨s', hturns, hend⟩ := ih next.turns (hturns ▸ hlt) (h.step hstep) rfl
      exact ⟨s', hturns.head ⟨action, hcontinues, hstep⟩, hend⟩
    · exact ⟨s, .refl, .inr howns⟩

theorem returns_of_reachable_sending : ∃ s s', system.Reachable s ∧ s.pc ≠ .waiting ∧
    ReflTransGen Turn s s' ∧ (s'.pc = .waiting ∨ ¬ s'.OwnsSender) := by
  obtain ⟨s, hreachable, hbusy, _⟩ := exists_reachable_sending
  obtain ⟨s', hturns, hend⟩ := returns_of_reachable hreachable
  exact ⟨s, s', hreachable, hbusy, hturns, hend⟩

end Server

end UpsServer
