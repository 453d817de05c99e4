import UpsServer.GameRoom.GameLoop
import UpsServer.GameServer.Progress
import UpsServer.GameServer.Simulation

namespace UpsServer

/-- The most events that `epoll_wait` returns at once. -/
def maxEventsNum : Nat := 10

/-- The kernel reports what it listens for, and errors and hang-ups anyway. -/
def mayReport (mask events : EventMask) : Bool :=
  events &&& (mask ||| EPOLLERR ||| EPOLLHUP) == events

/-- The kernel may report an event. An eventfd is never hung up. -/
def IdleUsersRoom.Reported (idle : IdleUsersRoom) (event : EpollEvent) : Prop :=
  (idle.epoll.interest.get? event.fd).any (mayReport · event.events) = true ∧
    ¬ (idle.isEvfd event.fd = true ∧ event.IsClosing)

instance (idle : IdleUsersRoom) (event : EpollEvent) : Decidable (idle.Reported event) :=
  inferInstanceAs (Decidable (_ ∧ _))

/-- The server with the idle thread in `waitForEvents`: the events of a batch that
are still to be handled, and the event types of the first one that are still to
be looked at. -/
structure IdleLoop where
  server : Server
  batch : List EpollEvent := []
  types : List EventMask := allEventTypes
deriving DecidableEq

/-- What can happen: `epoll_wait` returns, an event type is looked at, the turn of
an event ends, or one of the threads goes on. -/
inductive IdleLoopAction where
  | poll (batch : List EpollEvent)
  | handle (received : Option Str)
  | finish
  | server (action : ServerAction)
deriving DecidableEq

/-- The action calls a handler of the idle thread. -/
def ServerAction.calls : ServerAction → Bool
  | .newClientEvent | .receive _ _ | .disconnect _ _ | .stateChangeEvent _ => true
  | _ => false

namespace IdleLoop

def epoll (l : IdleLoop) : Epoll IdleHandler := l.server.idle.epoll

/-- The end of the turn of an event. -/
def endTurn (server : Server) (event : EpollEvent) : Server :=
  -- Remove this descriptor if it's closing
  if event.IsClosing then
    { server with
      idle := { server.idle with epoll := server.idle.epoll.removeDescriptor event.fd } }
  else server

/-- The steps of `waitForEvents` with the handlers of the idle room, and those of
the threads around it. -/
def step (l : IdleLoop) : IdleLoopAction → Option IdleLoop
  | .poll batch =>
    if l.server.pc = .waiting ∧ l.batch = [] ∧ batch.length ≤ maxEventsNum ∧
      (batch.map (·.fd)).Nodup ∧ ∀ event ∈ batch, l.server.idle.Reported event then
      some { l with batch := batch, types := allEventTypes }
    else none
  | .handle received =>
    match l.batch, l.types with
    | event :: _, evt :: types =>
      if l.server.pc ≠ .waiting then none
      -- The monitored descriptor can be removed during the event handling process
      else if event.fd ∉ l.epoll.monitoredFds.keys then some { l with batch := [] }
      else match l.epoll.handler event.fd (event.events &&& evt) with
      | some handler =>
        (l.server.step (.calling received event.fd (event.events &&& evt) handler)).map
          fun server => { l with server := server, types := types }
      | none => some { l with types := types }
    | _, _ => none
  | .finish =>
    match l.batch, l.types with
    | event :: batch, [] =>
      if l.server.pc ≠ .waiting then none else some ⟨endTurn l.server event, batch, allEventTypes⟩
    | _, _ => none
  | .server action =>
    if action.calls = true then none
    else (l.server.step action).map fun server => { l with server := server }

/-- Runs of the server in which the idle thread takes its events as
`waitForEvents` does. -/
def system : TransitionSystem IdleLoop IdleLoopAction where
  init l := Server.system.init l.server ∧ l.batch = []
  step l a l' := step l a = some l'

/-- The action of the server that a step stands for. -/
def serverAction : IdleLoop × IdleLoopAction × IdleLoop → Option ServerAction
  | (l, .handle received, _) =>
    match l.batch, l.types with
    | event :: _, evt :: _ =>
      (l.epoll.handler event.fd (event.events &&& evt)).map
        (.calling received event.fd (event.events &&& evt))
    | _, _ => none
  | (_, .server action, _) => some action
  | _ => none

private theorem serverAction_handle {l l' : IdleLoop} {event : EpollEvent} {batch : List EpollEvent}
    {evt : EventMask} {types : List EventMask} {received : Option Str}
    (hbatch : l.batch = event :: batch) (htypes : l.types = evt :: types) :
    serverAction (l, .handle received, l') =
      (l.epoll.handler event.fd (event.events &&& evt)).map
        (.calling received event.fd (event.events &&& evt)) := by
  rw [serverAction, hbatch, htypes]

/-- What a step can do. -/
inductive Effect (l l' : IdleLoop) : IdleLoopAction → Prop where
  | poll {batch : List EpollEvent} (hpc : l.server.pc = .waiting)
      (hreported : ∀ event ∈ batch, l.server.idle.Reported event)
      (heq : l' = { l with batch := batch, types := allEventTypes }) : Effect l l' (.poll batch)
  | gone {event : EpollEvent} {batch : List EpollEvent} {evt : EventMask} {types : List EventMask}
      {received : Option Str} (hbatch : l.batch = event :: batch) (htypes : l.types = evt :: types)
      (hgone : event.fd ∉ l.epoll.monitoredFds.keys) (heq : l' = { l with batch := [] }) :
      Effect l l' (.handle received)
  | skip {event : EpollEvent} {batch : List EpollEvent} {evt : EventMask} {types : List EventMask}
      {received : Option Str} (hbatch : l.batch = event :: batch) (htypes : l.types = evt :: types)
      (hnone : l.epoll.handler event.fd (event.events &&& evt) = none)
      (heq : l' = { l with types := types }) : Effect l l' (.handle received)
  | call {event : EpollEvent} {batch : List EpollEvent} {evt : EventMask} {types : List EventMask}
      {received : Option Str} {handler : IdleHandler} {server : Server}
      (hbatch : l.batch = event :: batch) (htypes : l.types = evt :: types)
      (hhandler : l.epoll.handler event.fd (event.events &&& evt) = some handler)
      (hstep : l.server.step (.calling received event.fd (event.events &&& evt) handler) =
        some server) (heq : l' = { l with server := server, types := types }) :
      Effect l l' (.handle received)
  | finish {event : EpollEvent} {batch : List EpollEvent} (hbatch : l.batch = event :: batch)
      (htypes : l.types = []) (hpc : l.server.pc = .waiting)
      (heq : l' = ⟨endTurn l.server event, batch, allEventTypes⟩) : Effect l l' .finish
  | server {action : ServerAction} {server : Server} (hcalls : action.calls = false)
      (hstep : l.server.step action = some server) (heq : l' = { l with server := server }) :
      Effect l l' (.server action)

theorem effect_of_step {l l' : IdleLoop} {action : IdleLoopAction} (h : step l action = some l') :
    Effect l l' action := by
  cases action with
  | poll batch =>
    obtain ⟨⟨hpc, _, _, _, hreported⟩, h⟩ := Option.ite_none_right_eq_some.mp h
    cases h
    exact .poll hpc hreported rfl
  | handle received =>
    simp only [step] at h
    split at h
    · rename_i event batch evt types hbatch htypes
      obtain ⟨_, h⟩ := Option.ite_none_left_eq_some.mp h
      split at h
      · rename_i hgone
        cases h
        exact .gone hbatch htypes hgone rfl
      · split at h
        · rename_i handler hhandler
          obtain ⟨server, hstep, rfl⟩ := Option.map_eq_some_iff.mp h
          exact .call hbatch htypes hhandler hstep rfl
        · rename_i hnone
          cases h
          exact .skip hbatch htypes hnone rfl
    · cases h
  | finish =>
    simp only [step] at h
    split at h
    · rename_i event batch hbatch htypes
      obtain ⟨hpc, h⟩ := Option.ite_none_left_eq_some.mp h
      cases h
      exact .finish hbatch htypes (not_not.mp hpc) rfl
    · cases h
  | server action =>
    obtain ⟨hcalls, h⟩ := Option.ite_none_left_eq_some.mp h
    obtain ⟨server, hstep, rfl⟩ := Option.map_eq_some_iff.mp h
    exact .server (Bool.eq_false_iff.mpr hcalls) hstep rfl

end IdleLoop

/-- The handler lets clients in. -/
def IdlePc.letsIn : IdlePc → Bool
  | .collecting | .changing _ => true
  | _ => false

theorem IdleUsersRoom.mem_clientFds {idle : IdleUsersRoom} (hstored : idle.StoredUnderOwnFd)
    {fd : Int} : fd ∈ idle.clientFds ↔ idle.Owns fd := by
  simp only [clientFds, UnorderedMap.mem_tokens, Multiset.mem_singleton]
  constructor
  · rintro ⟨fd', client, hclient, rfl⟩
    rw [← hstored fd' client hclient] at hclient
    exact ⟨client, hclient⟩
  · rintro ⟨client, hclient⟩
    exact ⟨fd, client, hclient, (hstored fd client hclient).symm⟩

theorem IdleUsersRoom.Admits.owns {idle idle' : IdleUsersRoom} (h : Admits 0 idle idle')
    (hstored : idle.StoredUnderOwnFd) {fd : Int} (howns : idle'.Owns fd) : idle.Owns fd := by
  rw [← mem_clientFds (h.stored hstored)] at howns
  rw [← mem_clientFds hstored, ← add_zero idle.clientFds]
  exact Multiset.mem_of_le h.clientFds_le howns

namespace Server

open IdleUsersRoom

variable {s s' : Server} {action : ServerAction} {fd : Int}

private theorem letsIn_of_addNewClient (hstep : s.step .addNewClient = some s') :
    s.pc.letsIn = true := by
  obtain ⟨hpc, _⟩ := Option.ite_none_right_eq_some.mp hstep
  rw [hpc]
  rfl

private theorem letsIn_of_applyStateChange (hstep : s.step .applyStateChange = some s') :
    s.pc.letsIn = true := by
  obtain ⟨roomId, _, _, _, _, hpc, _⟩ := applyStateChange_of_step hstep
  rw [hpc]
  rfl

/-- Handlers that let clients in are called in an event loop only. -/
theorem letsIn_of_step (hstored : s.idle.StoredUnderOwnFd) (hstep : s.step action = some s')
    (hcalls : action.calls = false) (hlets : s'.pc.letsIn = true) : s.pc.letsIn = true := by
  cases effect_of_step hstored hstep with
  | newClientEvent | receive | disconnect | stateChangeEvent => cases hcalls
  | accept _ heq | game _ _ _ _ heq =>
    subst heq
    exact hlets
  | handlerDone _ heq | answer _ _ _ heq | startGame _ _ _ _ _ _ _ heq =>
    subst heq
    cases hlets
  | addNewClient => exact letsIn_of_addNewClient hstep
  | applyStateChange => exact letsIn_of_applyStateChange hstep
  | sendClient _ _ heq =>
    subst heq
    simp only [withIdle, afterSend] at hlets
    split at hlets <;> cases hlets

/-- Nobody comes to the idle room otherwise. -/
theorem owns_of_step (hstored : s.idle.StoredUnderOwnFd) (hstep : s.step action = some s')
    (hlets : s.pc.letsIn = false) (howns : s'.idle.Owns fd) : s.idle.Owns fd := by
  cases effect_of_step hstored hstep with
  | accept _ heq | handlerDone _ heq | newClientEvent heq | stateChangeEvent heq
  | game _ _ _ _ heq =>
    subst heq
    exact howns
  | addNewClient =>
    rw [letsIn_of_addNewClient hstep] at hlets
    cases hlets
  | applyStateChange =>
    rw [letsIn_of_applyStateChange hstep] at hlets
    cases hlets
  | receive hreceive heq =>
    subst heq
    exact (admits_receiveMessages hreceive).owns hstored howns
  | answer _ _ hanswer heq =>
    subst heq
    exact (admits_answer hanswer).owns hstored howns
  | disconnect heq =>
    subst heq
    exact (admits_onClientDisconnect s.idle _).owns hstored howns
  | startGame _ _ _ _ _ hnew _ heq =>
    obtain ⟨_, _, _, rfl⟩ := newGameThread_eq_ok hnew
    subst heq
    exact howns
  | sendClient _ hsend heq =>
    subst heq
    exact ((owns_sendClientToGameThread hstored hsend).mp howns).1

end Server

namespace IdleLoop

open IdleUsersRoom

variable {l l' : IdleLoop} {action : IdleLoopAction}

/-- While an event is handled that closes a socket, nobody is let in, and as long as
the client is in the idle room the handler that drops him is still to be called. -/
structure ClosingOk (l : IdleLoop) : Prop where
  socket : ∀ event ∈ l.batch, event.IsClosing → l.server.idle.isEvfd event.fd = false
  quiet : ∀ event batch, l.batch = event :: batch → event.IsClosing → l.server.pc.letsIn = false
  pending : ∀ event batch, l.batch = event :: batch → event.IsClosing →
    l.server.idle.Owns event.fd → ∃ evt ∈ l.types,
      event.events &&& evt = EPOLLRDHUP ∨ event.events &&& evt = EPOLLHUP

private theorem closingOk_of_nil (h : l.batch = []) : l.ClosingOk := by
  refine ⟨fun event hevent => ?_, fun event batch hbatch => ?_, fun event batch hbatch => ?_⟩
  · rw [h] at hevent
    cases hevent
  · cases h.symm.trans hbatch
  · cases h.symm.trans hbatch

/-- The turn of an event begins. -/
theorem closingOk_of_turn (hpc : l.server.pc = .waiting) (htypes : l.types = allEventTypes)
    (hsocket : ∀ event ∈ l.batch, event.IsClosing → l.server.idle.isEvfd event.fd = false) :
    l.ClosingOk := by
  refine ⟨hsocket, fun _ _ _ _ => by rw [hpc]; rfl, fun _ _ _ hclosing _ => ?_⟩
  rw [htypes]
  exact GameLoop.exists_closing_type hclosing

/-- A client who is still in the idle room has handlers for the types that close
his socket. -/
theorem handler_of_owns (hreach : Server.system.Reachable l.server) {fd : Int} {evt : EventMask}
    (howns : l.server.idle.Owns fd) (hclosing : evt = EPOLLRDHUP ∨ evt = EPOLLHUP) :
    l.epoll.handler fd evt = some .onClientDisconnect := by
  obtain ⟨hadGame, htable⟩ := Server.eventTable_of_reachable hreach
  exact (htable.serves.handlers _ _ _).mpr (.inl ⟨howns, .inr ⟨hclosing, rfl⟩⟩)

/-- At the end of a turn there is nothing left to remove. -/
theorem endTurn_eq (h : l.ClosingOk) (hreach : Server.system.Reachable l.server)
    {event : EpollEvent} {batch : List EpollEvent} (hbatch : l.batch = event :: batch) (htypes : l.types = []) :
    endTurn l.server event = l.server := by
  unfold endTurn
  split
  · rename_i hclosing
    obtain ⟨hadGame, htable⟩ := Server.eventTable_of_reachable hreach
    have hgone : event.fd ∉ l.server.idle.epoll.monitoredFds.keys := by
      refine htable.notMem_keys (h.socket event (hbatch ▸ List.mem_cons_self) hclosing) ?_
      intro howns
      obtain ⟨evt, hevt, _⟩ := h.pending event batch hbatch hclosing howns
      rw [htypes] at hevt
      exact List.not_mem_nil hevt
    rw [Epoll.removeDescriptor, UnorderedMap.notMem_keys.mp hgone]
  · rfl

section Call

variable {event : EpollEvent} {batch : List EpollEvent} {evt : EventMask} {types : List EventMask}
  {received : Option Str} {handler : IdleHandler} {server : Server}

/-- An event that closes a socket has its client read or dropped. -/
theorem ClosingOk.call (h : l.ClosingOk) (hreach : Server.system.Reachable l.server)
    (hbatch : l.batch = event :: batch) (htypes : l.types = evt :: types)
    (hhandler : l.epoll.handler event.fd (event.events &&& evt) = some handler)
    (hstep : l.server.step (.calling received event.fd (event.events &&& evt) handler) =
      some server) : ({ l with server := server, types := types } : IdleLoop).ClosingOk := by
  have hstored := (Server.invariant_of_reachable hreach).stored
  have hsocket : ∀ later ∈ l.batch, later.IsClosing → server.idle.isEvfd later.fd = false := by
    rw [Server.isEvfd_step (Server.invariant_of_reachable hreach) hstep]
    exact h.socket
  have hclient : event.IsClosing → Epoll.WatchHandler .onClientWrite .onClientDisconnect
      (event.events &&& evt) handler := by
    intro hclosing
    obtain ⟨hadGame, htable⟩ := Server.eventTable_of_reachable hreach
    obtain ⟨_, hclient⟩ | hqueue := (htable.serves.handlers _ _ _).mp hhandler
    · exact hclient
    · exact (not_queueHandler (h.socket event (hbatch ▸ List.mem_cons_self) hclosing) hqueue).elim
  refine ⟨hsocket, fun event' batch' hbatch' hclosing => ?_,
    fun event' batch' hbatch' hclosing howns => ?_⟩
  · cases hbatch.symm.trans hbatch'
    obtain ⟨_, rfl⟩ | ⟨_, rfl⟩ := hclient hclosing
    · cases Server.effect_of_step hstored hstep with
      | receive _ heq => rw [heq]; rfl
      | handlerDone hdone => cases hdone
    · cases Server.effect_of_step hstored hstep with
      | disconnect heq => rw [heq]; rfl
      | handlerDone hdone => cases hdone
  · cases hbatch.symm.trans hbatch'
    have hbefore := Server.owns_of_step hstored hstep (h.quiet event batch hbatch hclosing) howns
    obtain ⟨evt', hevt', hset⟩ := h.pending event batch hbatch hclosing hbefore
    rw [htypes] at hevt'
    obtain rfl | hevt' := List.mem_cons.mp hevt'
    -- the type that closes the socket is being looked at, so the client is dropped now
    · obtain ⟨hin, _⟩ | ⟨_, rfl⟩ := hclient hclosing
      · rw [hin] at hset
        exact absurd hset (by decide)
      · cases Server.effect_of_step hstored hstep with
        | disconnect heq =>
          rw [heq] at howns
          exact (not_owns_onClientDisconnect _ _ howns).elim
        | handlerDone hdone => cases hdone
    · exact ⟨evt', hevt', hset⟩

end Call

theorem closingOk_step (h : l.ClosingOk) (hreach : Server.system.Reachable l.server)
    (hstep : step l action = some l') : l'.ClosingOk := by
  have hinvariant := Server.invariant_of_reachable hreach
  cases effect_of_step hstep with
  | poll hpc hreported heq =>
    subst heq
    refine closingOk_of_turn hpc rfl fun event hevent hclosing => ?_
    exact Bool.eq_false_iff.mpr fun hevfd => (hreported event hevent).2 ⟨hevfd, hclosing⟩
  | gone _ _ _ heq =>
    subst heq
    exact closingOk_of_nil rfl
  | @skip event batch evt types _ hbatch htypes hnone heq =>
    subst heq
    refine ⟨h.socket, h.quiet, fun event' batch' hbatch' hclosing howns => ?_⟩
    cases hbatch.symm.trans hbatch'
    obtain ⟨evt', hevt', hset⟩ := h.pending event batch hbatch hclosing howns
    rw [htypes] at hevt'
    obtain rfl | hevt' := List.mem_cons.mp hevt'
    · have hhandler := handler_of_owns hreach howns hset
      cases hhandler.symm.trans hnone
    · exact ⟨evt', hevt', hset⟩
  | call hbatch htypes hhandler hcall heq =>
    subst heq
    exact h.call hreach hbatch htypes hhandler hcall
  | @finish event batch hbatch htypes hpc heq =>
    rw [endTurn_eq h hreach hbatch htypes] at heq
    subst heq
    refine closingOk_of_turn hpc rfl fun later hlater => ?_
    exact h.socket later (hbatch ▸ List.mem_cons_of_mem event hlater)
  | server hcalls hserver heq =>
    subst heq
    refine ⟨?_, fun event batch hbatch hclosing => ?_, fun event batch hbatch hclosing howns => ?_⟩
    · rw [Server.isEvfd_step hinvariant hserver]
      exact h.socket
    · refine Bool.eq_false_iff.mpr fun hlets => ?_
      have hbefore := Server.letsIn_of_step hinvariant.stored hserver hcalls hlets
      rw [h.quiet event batch hbatch hclosing] at hbefore
      cases hbefore
    · exact h.pending event batch hbatch hclosing
        (Server.owns_of_step hinvariant.stored hserver (h.quiet event batch hbatch hclosing) howns)

/-- A step is a step of the server, or changes nothing in it. -/
theorem shows_of_step (h : l.ClosingOk) (hreach : Server.system.Reachable l.server)
    (hstep : step l action = some l') :
    (serverAction (l, action, l')).elim (l'.server = l.server)
      fun a => l.server.step a = some l'.server := by
  cases effect_of_step hstep with
  | poll _ _ heq =>
    rw [heq]
    rfl
  | gone hbatch htypes hgone heq =>
    rw [serverAction_handle hbatch htypes, Epoll.handler_of_notMem hgone, heq]
    rfl
  | skip hbatch htypes hnone heq =>
    rw [serverAction_handle hbatch htypes, hnone, heq]
    rfl
  | call hbatch htypes hhandler hcall heq =>
    rw [serverAction_handle hbatch htypes, hhandler, heq]
    exact hcall
  | finish hbatch htypes _ heq =>
    rw [heq]
    exact endTurn_eq h hreach hbatch htypes
  | server _ hserver heq =>
    rw [heq]
    exact hserver

theorem closingOk_of_reachable (h : system.Reachable l) :
    Server.system.Reachable l.server ∧ l.ClosingOk := by
  induction h with
  | init hinit => exact ⟨.init hinit.1, closingOk_of_nil hinit.2⟩
  | @step l l' action _ hstep ih =>
    obtain ⟨hreach, hok⟩ := ih
    refine ⟨?_, closingOk_step hok hreach hstep⟩
    have hshows := shows_of_step hok hreach hstep
    cases haction : serverAction (l, action, l') with
    | none =>
      rw [haction, Option.elim] at hshows
      rwa [hshows]
    | some a =>
      rw [haction, Option.elim] at hshows
      exact .step hreach hshows

/-- The batch has nothing left to call a handler for. -/
def Ready (l : IdleLoop) : Prop :=
  ∀ event batch, l.batch = event :: batch → batch = [] ∧ ∀ evt ∈ l.types, event.events &&& evt = 0

private theorem ready_of_nil (h : l.batch = []) : l.Ready := by
  intro event batch hbatch
  cases h.symm.trans hbatch

/-- The kernel reports the events that have handlers, one type at a time. -/
theorem reported_of_handler {s : Server} (hreach : Server.system.Reachable s) {fd : Int}
    {evt : EventMask} {x : IdleHandler} (hhandler : s.idle.epoll.handler fd evt = some x) :
    evt ∈ allEventTypes ∧ s.idle.Reported ⟨evt, fd⟩ := by
  obtain ⟨hadGame, htable⟩ := Server.eventTable_of_reachable hreach
  obtain ⟨howns, hclient⟩ | hqueue := (htable.serves.handlers fd evt x).mp hhandler
  · have hfd := Server.isEvfd_of_owns hreach howns
    have hnoEvfd : ¬ (s.idle.isEvfd fd = true ∧ (⟨evt, fd⟩ : EpollEvent).IsClosing) :=
      fun hevfd => Bool.false_ne_true (hfd.symm.trans hevfd.1)
    have hmask := htable.interest_client howns hfd
    obtain ⟨hlisted, hreports⟩ : evt ∈ allEventTypes ∧
        mayReport (EPOLLIN ||| EPOLLRDHUP ||| EPOLLHUP ||| EPOLLET) evt = true := by
      obtain ⟨rfl, _⟩ | ⟨rfl | rfl, _⟩ := hclient <;> decide
    exact ⟨hlisted, (Option.any_eq_true ..).mpr ⟨_, hmask, hreports⟩, hnoEvfd⟩
  · have hstranger : ¬ s.idle.Owns fd := by
      intro howns
      have hfd := Server.isEvfd_of_owns hreach howns
      rw [hqueue.isEvfd] at hfd
      cases hfd
    obtain rfl : evt = EPOLLIN := by
      cases hqueue with
      | newClient _ hevt | stateChange _ _ hevt => exact hevt
    have hmask := htable.interest_queue hstranger ⟨x, hqueue⟩
    have hreports : mayReport (EPOLLIN ||| EPOLLET) EPOLLIN = true := by decide
    have hopen : EPOLLIN &&& (EPOLLRDHUP ||| EPOLLHUP) = 0 := by decide
    exact ⟨by decide, (Option.any_eq_true ..).mpr ⟨_, hmask, hreports⟩,
      fun hevfd => hevfd.2 hopen⟩

/-- The actions that call handlers are those of an event loop. -/
theorem exists_calling {s s' : Server} {action : ServerAction} (hcalls : action.calls = true)
    (hstep : s.step action = some s') : ∃ received fd evt x, action = .calling received fd evt x ∧
      s.pc = .waiting ∧ s.idle.epoll.handler fd evt = some x := by
  cases action with
  | newClientEvent =>
    obtain ⟨⟨hpc, hhandler⟩, _⟩ := Option.ite_none_right_eq_some.mp hstep
    exact ⟨none, _, _, _, rfl, hpc, hhandler⟩
  | receive fd received =>
    obtain ⟨⟨hpc, hhandler⟩, _⟩ := Option.ite_none_right_eq_some.mp hstep
    exact ⟨received, _, _, _, rfl, hpc, hhandler⟩
  | disconnect fd event =>
    obtain ⟨⟨hpc, hhandler⟩, _⟩ := Option.ite_none_right_eq_some.mp hstep
    exact ⟨none, _, _, _, rfl, hpc, hhandler⟩
  | stateChangeEvent roomId =>
    obtain ⟨⟨hpc, hroom⟩, _⟩ := Option.ite_none_right_eq_some.mp hstep
    obtain ⟨room, _, hhandler⟩ := (Option.any_eq_true ..).mp hroom
    exact ⟨none, _, _, _, rfl, hpc, beq_iff_eq.mp hhandler⟩
  | _ => cases hcalls

section Silent

variable {event : EpollEvent} {batch : List EpollEvent} {before types : List EventMask}

/-- Event types that have not been reported are passed over. -/
theorem exists_skips (hbatch : l.batch = event :: batch) (htypes : l.types = before ++ types)
    (hpc : l.server.pc = .waiting) (hmem : event.fd ∈ l.epoll.monitoredFds.keys)
    (hzero : ∀ evt ∈ before, event.events &&& evt = 0) :
    ∃ more, system.Path l more { l with types := types } ∧ more.filterMap serverAction = [] := by
  induction before generalizing l with
  | nil =>
    obtain ⟨server, batch, _⟩ := l
    obtain rfl : _ = types := htypes
    exact ⟨[], .nil, rfl⟩
  | cons evt before ih =>
    obtain ⟨hevt, hzero⟩ := List.forall_mem_cons.mp hzero
    have hnone : l.epoll.handler event.fd (event.events &&& evt) = none := by
      rw [hevt]
      exact Epoll.handler_zero _ _
    have hskip : step l (.handle none) = some { l with types := before ++ types } := by
      simp only [step, hbatch, htypes, List.cons_append, hpc, ne_eq, not_true_eq_false, if_false,
        hmem, not_true_eq_false, hnone]
    obtain ⟨more, hpath, hsilent⟩ := ih (l := { l with types := before ++ types }) hbatch rfl hpc
      hmem hzero
    refine ⟨_, .cons hskip hpath, ?_⟩
    rw [List.filterMap_cons, serverAction_handle hbatch htypes, hnone]
    exact hsilent

/-- The turn of an event ends without a trace. -/
theorem step_finish (hreach : system.Reachable l) (hpc : l.server.pc = .waiting)
    (hbatch : l.batch = event :: batch) (htypes : l.types = []) :
    step l .finish = some ⟨l.server, batch, allEventTypes⟩ := by
  obtain ⟨hserver, hok⟩ := closingOk_of_reachable hreach
  simp only [step, hbatch, htypes, hpc, ne_eq, not_true_eq_false, if_false,
    endTurn_eq hok hserver hbatch htypes]

/-- The rest of a batch whose only event has had its handler called is over soon. -/
theorem exists_drained (hreach : system.Reachable l) (hready : l.Ready)
    (hpc : l.server.pc = .waiting) : ∃ more l', system.Path l more l' ∧ l'.server = l.server ∧
      l'.batch = [] ∧ more.filterMap serverAction = [] := by
  cases hbatch : l.batch with
  | nil => exact ⟨[], l, .nil, rfl, hbatch, rfl⟩
  | cons event batch =>
    obtain ⟨rfl, hzero⟩ := hready event batch hbatch
    by_cases hmem : event.fd ∈ l.epoll.monitoredFds.keys
    · obtain ⟨more, hpath, hsilent⟩ :=
        exists_skips hbatch (List.append_nil _).symm hpc hmem hzero
      have hstep := step_finish (hpath.reachable hreach) hpc hbatch rfl
      refine ⟨_, _, hpath.append (.single hstep), rfl, rfl, ?_⟩
      rw [List.filterMap_append, hsilent]
      rfl
    · cases htypes : l.types with
      | nil =>
        exact ⟨_, _, .single (step_finish hreach hpc hbatch htypes), rfl, rfl, rfl⟩
      | cons evt types =>
        have hgone : step l (.handle none) = some { l with batch := [] } := by
          simp only [step, hbatch, htypes, hpc, ne_eq, not_true_eq_false, if_false, hmem,
            not_false_eq_true, if_true]
        refine ⟨_, _, .single hgone, rfl, rfl, ?_⟩
        rw [List.filterMap_cons, serverAction_handle hbatch htypes, Epoll.handler_of_notMem hmem]
        rfl

end Silent

/-- A handler can be called by a batch of one event. -/
theorem exists_called (hreach : system.Reachable l) (hpc : l.server.pc = .waiting)
    (hbatch : l.batch = []) {received : Option Str} {fd : Int} {evt : EventMask} {x : IdleHandler}
    {server : Server} (hhandler : l.server.idle.epoll.handler fd evt = some x)
    (hstep : l.server.step (.calling received fd evt x) = some server) :
    ∃ more l', system.Path l more l' ∧ l'.Ready ∧ l'.server = server ∧
      more.filterMap serverAction = [.calling received fd evt x] := by
  obtain ⟨hlisted, hreported⟩ := reported_of_handler (closingOk_of_reachable hreach).1 hhandler
  obtain ⟨before, after, hsplit, hbefore, hafter⟩ := Epoll.exists_split hlisted
  have hmem : fd ∈ l.server.idle.epoll.monitoredFds.keys := by
    by_contra hnot
    rw [Epoll.handler_of_notMem hnot] at hhandler
    cases hhandler
  have hpoll : step l (.poll [⟨evt, fd⟩]) = some ⟨l.server, [⟨evt, fd⟩], allEventTypes⟩ := by
    have hlength : 1 ≤ maxEventsNum := by decide
    refine if_pos ⟨hpc, hbatch, hlength, List.nodup_singleton _, fun event hevent => ?_⟩
    rw [List.mem_singleton.mp hevent]
    exact hreported
  obtain ⟨skips, hpath, hsilent⟩ : ∃ more, system.Path ⟨l.server, [⟨evt, fd⟩], allEventTypes⟩ more
      ⟨l.server, [⟨evt, fd⟩], evt :: after⟩ ∧ more.filterMap serverAction = [] :=
    exists_skips rfl hsplit hpc hmem hbefore
  have hcall : step ⟨l.server, [⟨evt, fd⟩], evt :: after⟩ (.handle received) =
      some ⟨server, [⟨evt, fd⟩], after⟩ := by
    simp only [step, hpc, ne_eq, not_true_eq_false, if_false, epoll, hmem, BitVec.and_self,
      hhandler, hstep, Option.map_some]
  refine ⟨_, _, .cons hpoll (hpath.append (.single hcall)), ?_, rfl, ?_⟩
  · intro event batch hevent
    cases hevent
    exact ⟨rfl, hafter⟩
  · rw [List.filterMap_cons_none rfl, List.filterMap_append, hsilent, List.nil_append,
      List.filterMap_cons, serverAction_handle rfl rfl]
    simp only [epoll, BitVec.and_self, hhandler]
    rfl

/-- Each step of the server is taken by some batch. -/
theorem exists_path (hreach : system.Reachable l) (hready : l.Ready) {action : ServerAction}
    {server : Server} (hstep : l.server.step action = some server) :
    ∃ more l', system.Path l more l' ∧ l'.Ready ∧ l'.server = server ∧
      more.filterMap serverAction = [action] := by
  cases hcalls : action.calls with
  | false =>
    have hserver : step l (.server action) = some { l with server := server } := by
      rw [step, hcalls, if_neg Bool.false_ne_true, hstep]
      rfl
    exact ⟨_, _, .single hserver, hready, rfl, rfl⟩
  | true =>
    obtain ⟨received, fd, evt, x, rfl, hpc, hhandler⟩ := exists_calling hcalls hstep
    obtain ⟨drain, l', hdrain, hserver, hbatch, hsilent⟩ := exists_drained hreach hready hpc
    rw [← hserver] at hstep hpc hhandler
    obtain ⟨more, l'', hcalled, hready', hserver', hevents⟩ :=
      exists_called (hdrain.reachable hreach) hpc hbatch hhandler hstep
    refine ⟨drain ++ more, l'', hdrain.append hcalled, hready', hserver', ?_⟩
    rw [List.filterMap_append, hsilent, List.nil_append, hevents]

/-- Whatever batches `epoll_wait` returns, and whatever the threads do meanwhile, the
idle thread in `waitForEvents` does what the server does that takes its events one
at a time in any order, and it does all of it: the same actions lead to the same
states. The order of the handlers, the events that are dropped with a batch, and
the descriptors that are removed at the end of an event make no difference. -/
theorem runs_iff (actions : List ServerAction) (s : Server) :
    (∃ steps l, system.Run steps l ∧ l.server = s ∧ steps.filterMap serverAction = actions) ↔
      ∃ steps, Server.system.Run steps s ∧ steps.map (·.2.1) = actions := by
  constructor
  · rintro ⟨steps, l, hrun, rfl, rfl⟩
    have hinit : ∀ l, system.init l → Server.system.init l.server := fun _ hinit => hinit.1
    refine hrun.events hinit fun l action l' hreach hstep => ?_
    obtain ⟨hserver, hok⟩ := closingOk_of_reachable hreach
    exact shows_of_step hok hserver hstep
  · rintro ⟨events, hrun, rfl⟩
    have hinit : ∀ s, Server.system.init s → ∃ l, system.init l ∧ l.Ready ∧ l.server = s :=
      fun s hinit => ⟨⟨s, [], allEventTypes⟩, ⟨hinit, rfl⟩, ready_of_nil rfl, rfl⟩
    have hpath : ∀ (l : IdleLoop) action s, system.Reachable l → l.Ready →
        Server.system.step l.server action s → ∃ more l', system.Path l more l' ∧ l'.Ready ∧
          l'.server = s ∧ more.filterMap serverAction = [action] :=
      fun _ _ _ hreach hready hstep => exists_path hreach hready hstep
    obtain ⟨steps, l, hrun, _, hserver, hevents⟩ := hrun.realize hinit hpath
    exact ⟨steps, l, hrun, hserver, hevents⟩

end IdleLoop

end UpsServer
