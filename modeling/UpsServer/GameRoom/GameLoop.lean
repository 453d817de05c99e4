import UpsServer.GameRoom.Handover
import UpsServer.GameRoom.Resume
import UpsServer.Linux.EventLoop

open Outcome

namespace UpsServer

/-- The event closes its descriptor. -/
def EpollEvent.IsClosing (event : EpollEvent) : Prop :=
  event.events &&& (EPOLLRDHUP ||| EPOLLHUP) ≠ 0

instance (event : EpollEvent) : Decidable event.IsClosing := inferInstanceAs (Decidable (_ ≠ _))

/-- A game thread in `waitForEvents`: the event whose handlers are being called,
with the event types that are still to be looked at. -/
structure GameLoop where
  thread : GameThread
  event : Option (EpollEvent × List EventMask) := none
deriving DecidableEq

/-- What can happen to the loop: an event is taken, an event type of it is looked
at, its turn ends, or the thread or the idle thread around it goes on. -/
inductive LoopAction where
  | poll (event : EpollEvent)
  | handle (received : Option Str)
  | finish
  | thread (action : GameAction)
deriving DecidableEq

namespace GameLoop

/-- The call of a handler. -/
def call (received : Option Str) (fd : Int) (evt : EventMask) : GameHandler → GameAction
  | .onNewClientConnect => .newClientEvent
  | .onClientWrite => .receive fd received
  | .onClientDisconnect => .disconnect fd evt

def evfd (l : GameLoop) : Int := l.thread.game.gameInput.evfd

def epoll (l : GameLoop) : Epoll GameHandler := l.thread.game.epoll

/-- The thread goes on by itself: handlers are called, and descriptors removed, by
the loop only. The game is left between two events, and the eventfd of its input
stays open, so that no socket has its number. -/
def goesOn (l : GameLoop) : GameAction → Bool
  | .newClientEvent | .receive _ _ | .disconnect _ _ | .removeDescriptor _ => false
  | .stop => l.event.isNone
  | .deliver client => client.clientFd ≠ l.evfd
  | _ => true

/-- The steps of `waitForEvents` with the handlers of a game. An eventfd is never
hung up. -/
def step (l : GameLoop) : LoopAction → Option GameLoop
  | .poll event =>
    if l.event = none ∧ l.thread.pc = .waiting ∧ ¬ (event.fd = l.evfd ∧ event.IsClosing) then
      some { l with event := some (event, allEventTypes) }
    else none
  | .handle received =>
    match l.event with
    | some (event, evt :: types) =>
      if l.thread.pc ≠ .waiting then none
      -- The monitored descriptor can be removed during the event handling process
      else if event.fd ∉ l.epoll.monitoredFds.keys then some { l with event := none }
      else match l.epoll.handler event.fd (event.events &&& evt) with
      | some handler =>
        (l.thread.step (call received event.fd (event.events &&& evt) handler)).map
          fun t => ⟨t, some (event, types)⟩
      | none => some { l with event := some (event, types) }
    | _ => none
  | .finish =>
    match l.event with
    | some (event, []) =>
      if l.thread.pc ≠ .waiting then none
      -- Remove this descriptor if it's closing
      else if event.IsClosing then
        some ⟨{ l.thread with
          game := { l.thread.game with epoll := l.epoll.removeDescriptor event.fd } }, none⟩
      else some { l with event := none }
    | _ => none
  | .thread action =>
    if l.goesOn action then (l.thread.step action).map fun t => { l with thread := t } else none

/-- Runs of the event loop of a game. -/
def system : TransitionSystem GameLoop LoopAction where
  init l := GameThread.system.init l.thread ∧ l.event = none ∧
    ∀ client ∈ l.thread.game.gameInput.data, client.clientFd ≠ l.evfd
  step l a l' := step l a = some l'

/-- What a step of the loop can do. -/
inductive Effect (l l' : GameLoop) : LoopAction → Prop where
  | poll {event : EpollEvent} (hrest : l.event = none) (hpc : l.thread.pc = .waiting)
      (hfd : ¬ (event.fd = l.evfd ∧ event.IsClosing))
      (heq : l' = { l with event := some (event, allEventTypes) }) : Effect l l' (.poll event)
  | gone {event : EpollEvent} {types : List EventMask} {received : Option Str}
      (hevent : l.event = some (event, types)) (hgone : event.fd ∉ l.epoll.monitoredFds.keys)
      (heq : l' = { l with event := none }) : Effect l l' (.handle received)
  | skip {event : EpollEvent} {evt : EventMask} {types : List EventMask} {received : Option Str}
      (hevent : l.event = some (event, evt :: types)) (hmem : event.fd ∈ l.epoll.monitoredFds.keys)
      (hnone : l.epoll.handler event.fd (event.events &&& evt) = none)
      (heq : l' = { l with event := some (event, types) }) : Effect l l' (.handle received)
  | call {event : EpollEvent} {evt : EventMask} {types : List EventMask} {received : Option Str}
      {handler : GameHandler} (hevent : l.event = some (event, evt :: types))
      (hhandler : l.epoll.handler event.fd (event.events &&& evt) = some handler)
      (hstep : l.thread.step (call received event.fd (event.events &&& evt) handler) =
        some l'.thread)
      (hevent' : l'.event = some (event, types)) : Effect l l' (.handle received)
  | remove {event : EpollEvent} (hevent : l.event = some (event, []))
      (hpc : l.thread.pc = .waiting) (hclosing : event.IsClosing)
      (heq : l' = ⟨{ l.thread with
        game := { l.thread.game with epoll := l.epoll.removeDescriptor event.fd } }, none⟩) :
      Effect l l' .finish
  | keep {event : EpollEvent} (hevent : l.event = some (event, []))
      (hclosing : ¬ event.IsClosing) (heq : l' = { l with event := none }) : Effect l l' .finish
  | thread {action : GameAction} (hgoes : l.goesOn action = true)
      (hstep : l.thread.step action = some l'.thread) (hevent : l'.event = l.event) :
      Effect l l' (.thread action)

theorem effect_of_step {l l' : GameLoop} {action : LoopAction} (h : step l action = some l') :
    Effect l l' action := by
  cases action with
  | poll event =>
    obtain ⟨⟨hrest, hpc, hfd⟩, h⟩ := Option.ite_none_right_eq_some.mp h
    cases h
    exact .poll hrest hpc hfd rfl
  | handle received =>
    simp only [step] at h
    split at h
    · rename_i event evt types hevent
      obtain ⟨_, h⟩ := Option.ite_none_left_eq_some.mp h
      split at h
      · rename_i hgone
        cases h
        exact .gone hevent hgone rfl
      · rename_i hmem
        split at h
        · rename_i handler hhandler
          obtain ⟨t, hstep, rfl⟩ := Option.map_eq_some_iff.mp h
          exact .call hevent hhandler hstep rfl
        · rename_i hnone
          cases h
          exact .skip hevent (not_not.mp hmem) hnone rfl
    · cases h
  | finish =>
    simp only [step] at h
    split at h
    · rename_i event hevent
      obtain ⟨hpc, h⟩ := Option.ite_none_left_eq_some.mp h
      split at h
      · rename_i hclosing
        cases h
        exact .remove hevent (not_not.mp hpc) hclosing rfl
      · rename_i hclosing
        cases h
        exact .keep hevent hclosing rfl
    · cases h
  | thread action =>
    obtain ⟨hgoes, h⟩ := Option.ite_none_right_eq_some.mp h
    obtain ⟨t, hstep, rfl⟩ := Option.map_eq_some_iff.mp h
    exact .thread hgoes hstep rfl

/-- The handlers of a game for the eventfd of its input and for its clients. -/
def handlersFor (evfd fd : Int) (evt : EventMask) : Option GameHandler :=
  if fd = evfd then if evt = EPOLLIN then some .onNewClientConnect else none
  else if evt = EPOLLRDHUP ∨ evt = EPOLLHUP then some .onClientDisconnect
  else if evt = EPOLLIN then some .onClientWrite else none

/-- The table holds the eventfd of the input, and each entry has its handlers. -/
structure Registered (e : Epoll GameHandler) (evfd : Int) : Prop where
  monitors : e.Monitors e.monitoredFds.keys
  handlers : ∀ fd ∈ e.monitoredFds.keys, ∀ evt, e.handler fd evt = handlersFor evfd fd evt
  input : evfd ∈ e.monitoredFds.keys

section Registered

variable {e e' : Epoll GameHandler} {evfd fd : Int}

theorem Registered.of_table (h : Registered e evfd) (htable : e'.monitoredFds = e.monitoredFds) :
    Registered e' evfd := by
  refine ⟨⟨rfl, ?_⟩, ?_, ?_⟩
  · rw [htable]
    exact h.monitors.own
  · intro fd hmem evt
    rw [htable] at hmem
    rw [Epoll.handler, htable]
    exact h.handlers fd hmem evt
  · rw [htable]
    exact h.input

theorem Registered.removeDescriptor (h : Registered e evfd) (hne : fd ≠ evfd) :
    Registered (e.removeDescriptor fd) evfd := by
  have hmonitors := h.monitors.removeDescriptor fd
  refine ⟨⟨rfl, hmonitors.own⟩, ?_, ?_⟩
  · intro fd' hmem evt
    rw [hmonitors.keys] at hmem
    obtain ⟨hne', hmem⟩ := Finset.mem_erase.mp hmem
    rw [Epoll.handler_removeDescriptor_of_ne e hne', h.handlers fd' hmem evt]
  · rw [hmonitors.keys]
    exact Finset.mem_erase.mpr ⟨hne.symm, h.input⟩

theorem Registered.watchClient (h : Registered e evfd) (hne : fd ≠ evfd)
    (hwatch : e.watchClient fd .onClientWrite .onClientDisconnect = .ok e') :
    Registered e' evfd := by
  have hmonitors := h.monitors.watchClient hwatch
  refine ⟨⟨rfl, hmonitors.own⟩, ?_, ?_⟩
  · intro fd' hmem evt
    rw [hmonitors.keys] at hmem
    rw [h.monitors.handler_watchClient_eq hwatch]
    by_cases hfd : fd' = fd
    · subst hfd
      rw [if_pos rfl, handlersFor, if_neg hne]
      by_cases hold : fd' ∈ e.monitoredFds.keys
      · rw [h.handlers fd' hold evt, handlersFor, if_neg hne]
        split_ifs <;> rfl
      · rw [Epoll.handler_of_notMem hold]
    · rw [if_neg hfd]
      exact h.handlers fd' ((Finset.mem_insert.mp hmem).resolve_left hfd) evt
  · rw [hmonitors.keys]
    exact Finset.mem_insert_of_mem h.input

theorem registered_start {gameInput : EventfdQueue ProtocolClient}
    {gameOutput : EventfdQueue GameStateChange} {g : Game}
    (h : Game.start gameInput gameOutput = .ok g) :
    Registered g.epoll gameInput.evfd ∧ g.epoll.monitoredFds.keys = {gameInput.evfd} := by
  obtain ⟨epoll, hepoll, heq⟩ := bind_eq_ok.mp h
  cases heq
  have hadded := (Epoll.monitors_empty (H := GameHandler) true).addDescriptor gameInput.evfd
  have hmonitors := hadded.addEventHandler hepoll
  refine ⟨⟨⟨rfl, hmonitors.own⟩, ?_, ?_⟩, hmonitors.keys⟩
  · intro fd hmem evt
    rw [hmonitors.keys] at hmem
    obtain rfl := Finset.mem_singleton.mp hmem
    rw [hadded.handler_addEventHandler_eq hepoll, handlersFor, if_pos rfl,
      Epoll.handler_addDescriptor]
    simp only [Epoll.contains_EPOLLIN, true_and]
    rfl
  · rw [hmonitors.keys]
    exact Finset.mem_singleton_self _

/-- The calls that an entry can bring about. -/
theorem handlersFor_eq_some {evt : EventMask} {handler : GameHandler}
    (h : handlersFor evfd fd evt = some handler) :
    fd = evfd ∧ evt = EPOLLIN ∧ handler = .onNewClientConnect ∨
      fd ≠ evfd ∧ (evt = EPOLLIN ∧ handler = .onClientWrite ∨
        (evt = EPOLLRDHUP ∨ evt = EPOLLHUP) ∧ handler = .onClientDisconnect) := by
  unfold handlersFor at h
  split_ifs at h <;> cases h
  · exact .inl ⟨‹_›, ‹_›, rfl⟩
  · exact .inr ⟨‹_›, .inr ⟨‹_›, rfl⟩⟩
  · exact .inr ⟨‹_›, .inl ⟨‹_›, rfl⟩⟩

end Registered

/-- What holds of the table all along: the descriptors of the players are in it,
and while an event that closes a descriptor is handled, the handler that drops its
player is called before the turn of the event ends. -/
structure TableOk (l : GameLoop) : Prop where
  registered : Registered l.epoll l.evfd
  players : ∀ fd ∈ l.thread.game.playerFds, fd ∈ l.epoll.monitoredFds.keys
  evfdFree : l.evfd ∉ l.thread.game.heldFds
  closing : ∀ event types, l.event = some (event, types) → event.IsClosing →
    event.fd ≠ l.evfd ∧ l.thread.pc ≠ .collecting ∧
      (event.fd ∈ l.thread.game.playerFds → ∃ evt ∈ types,
        event.events &&& evt = EPOLLRDHUP ∨ event.events &&& evt = EPOLLHUP)

theorem exists_closing_type {event : EpollEvent} (h : event.IsClosing) :
    ∃ evt ∈ allEventTypes, event.events &&& evt = EPOLLRDHUP ∨ event.events &&& evt = EPOLLHUP := by
  have hbit : ∀ i : Nat, event.events &&& BitVec.twoPow 32 i = 0 ∨
      event.events &&& BitVec.twoPow 32 i = BitVec.twoPow 32 i := by
    intro i
    rw [BitVec.and_twoPow]
    split
    · exact .inr rfl
    · exact .inl rfl
  have hrdhup : event.events &&& EPOLLRDHUP = 0 ∨ event.events &&& EPOLLRDHUP = EPOLLRDHUP :=
    hbit 13
  have hhup : event.events &&& EPOLLHUP = 0 ∨ event.events &&& EPOLLHUP = EPOLLHUP := hbit 4
  obtain hnone | hset := hrdhup
  · obtain hnone' | hset := hhup
    · refine absurd ?_ h
      rw [BitVec.and_or_distrib_left, hnone, hnone']
      rfl
    · exact ⟨EPOLLHUP, by decide, .inr hset⟩
  · exact ⟨EPOLLRDHUP, by decide, .inl hset⟩

theorem isClosing_of_type {event : EpollEvent} {evt : EventMask}
    (h : event.events &&& evt = EPOLLRDHUP ∨ event.events &&& evt = EPOLLHUP) :
    event.IsClosing := by
  intro hnone
  have hmask : event.events &&& evt &&& (EPOLLRDHUP ||| EPOLLHUP) = 0 := by
    rw [BitVec.and_assoc, BitVec.and_comm evt, ← BitVec.and_assoc, hnone]
    exact BitVec.zero_and
  obtain h | h := h <;> (rw [h] at hmask; exact absurd hmask (by decide))

section ThreadStep

variable {t t' : GameThread}

theorem ok_of_resume {pc : ThreadPc} {x : Exec Game Game} (h : GameThread.resume pc x = some t)
    (hruns : t.Runs) : x = .ok t.game ∧ t.pc = pc := by
  cases x with
  | ok g =>
    cases h
    exact ⟨rfl, rfl⟩
  | error e =>
    obtain ⟨_, h⟩ := Option.ite_none_right_eq_some.mp h
    cases h
    exact (hruns.1 rfl).elim

/-- Apart from arrivals, the handlers of a game leave the table alone. -/
theorem table_of_step {action : GameAction} (h : GameThread.step t action = some t')
    (hruns : t'.Runs) (htake : ∀ now1 now2, action ≠ .takeNewClient now1 now2)
    (hremove : ∀ fd, action ≠ .removeDescriptor fd) :
    t'.game.epoll.monitoredFds = t.game.epoll.monitoredFds ∧
      t'.game.playerFds ≤ t.game.playerFds ∧
      t'.game.gameInput.evfd = t.game.gameInput.evfd := by
  have hkept : ∀ {g g' : Game}, Game.Kept g g' → g'.epoll.monitoredFds = g.epoll.monitoredFds ∧
      g'.playerFds ≤ g.playerFds ∧ g'.gameInput.evfd = g.gameInput.evfd :=
    fun hkept => ⟨hkept.monitoredFds, hkept.playerFds_le, by rw [hkept.input]⟩
  cases GameThread.effect_of_step h with
  | deliver _ _ hgame | output _ _ _ hgame | newClientEvent _ hgame | handlerDone _ _ hgame
  | stop _ hgame =>
    rw [hgame]
    exact ⟨rfl, le_rfl, rfl⟩
  | takeNewClient => exact (htake _ _ rfl).elim
  | receive hreceive => exact hkept (Game.quiet_receiveMessages hreceive).toKept
  | receiveThrows _ _ hpc => exact (hruns.1 hpc).elim
  | message _ hresume =>
    exact hkept ((Game.kept_processClientMessage _ _ _ _).of_ok (ok_of_resume hresume hruns).1)
  | disconnect _ hgame =>
    rw [hgame]
    exact hkept (Game.quiet_onClientDisconnect _ _).toKept
  | removeDescriptor => exact (hremove _ rfl).elim
  | destroy _ heq => exact (hruns.2 (by rw [heq])).elim

theorem table_of_call {received : Option Str} {fd : Int} {evt : EventMask} {handler : GameHandler}
    (h : t.step (call received fd evt handler) = some t') (hruns : t'.Runs) :
    t'.game.epoll.monitoredFds = t.game.epoll.monitoredFds ∧
      t'.game.playerFds ≤ t.game.playerFds ∧
      t'.game.gameInput.evfd = t.game.gameInput.evfd := by
  apply table_of_step h hruns
  · intro now1 now2 heq
    cases handler <;> cases heq
  · intro fd' heq
    cases handler <;> cases heq

/-- What a handler does that is called for a type of an event: the eventfd of the
input has the arrivals collected, a client is read from or dropped. -/
theorem Registered.call_cases {received : Option Str} {fd : Int} {evt : EventMask}
    {handler : GameHandler} (h : Registered t.game.epoll t.game.gameInput.evfd)
    (hhandler : t.game.epoll.handler fd evt = some handler)
    (hstep : t.step (call received fd evt handler) = some t') (hruns : t'.Runs) :
    fd = t.game.gameInput.evfd ∧
        t'.game = { t.game with gameInput := t.game.gameInput.eventfdRead } ∨
      fd ≠ t.game.gameInput.evfd ∧
        (evt = EPOLLIN ∧ (∃ messages, t.game.receiveMessages fd received = .ok (messages, t'.game) ∧
            t'.pc = .reading fd messages) ∨
          (evt = EPOLLRDHUP ∨ evt = EPOLLHUP) ∧ t'.pc = .waiting ∧
            t'.game = t.game.onClientDisconnect fd) := by
  have hmem : fd ∈ t.game.epoll.monitoredFds.keys := by
    by_contra hnot
    rw [Epoll.handler_of_notMem hnot] at hhandler
    cases hhandler
  rw [h.handlers _ hmem] at hhandler
  obtain ⟨heq, _, rfl⟩ | ⟨hne, ⟨hevt, rfl⟩ | ⟨hevt, rfl⟩⟩ := handlersFor_eq_some hhandler
  · cases GameThread.effect_of_step hstep with
    | newClientEvent _ hgame => exact .inl ⟨heq, hgame⟩
    | output _ hown => cases hown
    | handlerDone hdone => cases hdone
  · cases GameThread.effect_of_step hstep with
    | receive hreceive hpc => exact .inr ⟨hne, .inl ⟨hevt, _, hreceive, hpc⟩⟩
    | receiveThrows _ _ hpc => exact (hruns.1 hpc).elim
    | output _ hown => cases hown
    | handlerDone hdone => cases hdone
  · cases GameThread.effect_of_step hstep with
    | disconnect hpc hgame => exact .inr ⟨hne, .inr ⟨hevt, hpc, hgame⟩⟩
    | output _ hown => cases hown
    | handlerDone hdone => cases hdone

theorem takeNewClient_of_step {now1 now2 : UInt64}
    (h : GameThread.step t (.takeNewClient now1 now2) = some t') (hruns : t'.Runs) :
    t.pc = .collecting ∧ ∃ client waiting, t.game.gameInput.data = client :: waiting ∧
      t.game.takeNewClient now1 now2 = .ok t'.game := by
  cases GameThread.effect_of_step h with
  | takeNewClient hpc hinput hresume =>
    obtain ⟨client, waiting, hdata⟩ := EventfdQueue.exists_of_isEmpty_eq_false hinput
    exact ⟨hpc, client, waiting, hdata, (ok_of_resume hresume hruns).1⟩
  | output _ hown => cases hown
  | handlerDone hdone => cases hdone

/-- Only arriving clients are added to the table. -/
theorem table_of_takeNewClient {g g' : Game} {client : ProtocolClient}
    {waiting : List ProtocolClient} {now1 now2 : UInt64}
    (hdata : g.gameInput.data = client :: waiting) (h : g.takeNewClient now1 now2 = .ok g') :
    ∃ epoll, g.epoll.watchClient client.clientFd .onClientWrite .onClientDisconnect = .ok epoll ∧
      g'.epoll.monitoredFds = epoll.monitoredFds ∧
      g'.playerFds ≤ client.clientFd ::ₘ g.playerFds ∧
      g'.gameInput.evfd = g.gameInput.evfd := by
  obtain ⟨ref, arrived, hfree, _, hregister, _, hrest⟩ := Game.takeNewClient_eq_ok hdata h
  obtain ⟨epoll, hwatch, harrived⟩ := bind_eq_ok.mp hregister
  rw [withState_eq_ok, Game.arrive, Game.epoll_modifyPlayer] at hwatch
  cases harrived
  have hevfd := ((Game.settled_takeNewClient g now1 now2).of_ok h).1.inputEvfd
  rw [← Game.playerFds_arrive hfree client { g.gameInput with data := waiting }]
  split at hrest
  · have hkept := ((Game.quiet_greetPlayers _ now1 now2).of_ok hrest).toKept
    exact ⟨epoll, hwatch, hkept.monitoredFds, hkept.playerFds_le, hevfd⟩
  · rw [← hrest] at hevfd ⊢
    exact ⟨epoll, hwatch, rfl, le_rfl, hevfd⟩

end ThreadStep

section Invariant

variable {l l' : GameLoop} {action : LoopAction}

theorem tableOk_init (h : system.init l) : l.TableOk := by
  obtain ⟨⟨gameInput, gameOutput, _, hstart, hpc⟩, hevent, hfds⟩ := h
  obtain ⟨hregistered, hkeys⟩ := registered_start hstart
  obtain ⟨epoll, hgame⟩ := Game.start_eq_ok hstart
  have hinput : l.thread.game.gameInput = gameInput := by rw [hgame]
  refine ⟨?_, ?_, ?_, fun _ _ hsome => by cases hevent.symm.trans hsome⟩
  · rw [evfd, hinput]
    exact hregistered
  · intro fd hmem
    rw [hgame] at hmem
    exact absurd hmem (Multiset.notMem_zero fd)
  · rw [Game.heldFds, Multiset.mem_add, Multiset.mem_coe, List.mem_map]
    rintro (hplayer | ⟨client, hclient, hfd⟩)
    · rw [hgame] at hplayer
      exact absurd hplayer (Multiset.notMem_zero _)
    · exact hfds client hclient hfd

/-- The parts of the invariant that hold between two handlers hold after a handler
that leaves the table alone and adds no player. -/
theorem TableOk.of_table (h : l.TableOk)
    (htable : l'.epoll.monitoredFds = l.epoll.monitoredFds)
    (hplayers : l'.thread.game.playerFds ≤ l.thread.game.playerFds) (hevfd : l'.evfd = l.evfd)
    (hheld : l'.evfd ∉ l'.thread.game.heldFds)
    (hclosing : ∀ event types, l'.event = some (event, types) → event.IsClosing →
      event.fd ≠ l.evfd ∧ l'.thread.pc ≠ .collecting ∧
        (event.fd ∈ l'.thread.game.playerFds → ∃ evt ∈ types,
          event.events &&& evt = EPOLLRDHUP ∨ event.events &&& evt = EPOLLHUP)) : l'.TableOk := by
  refine ⟨?_, ?_, hheld, ?_⟩
  · rw [hevfd]
    exact h.registered.of_table htable
  · intro fd hmem
    rw [htable]
    exact h.players fd (Multiset.mem_of_le hplayers hmem)
  · rw [hevfd]
    exact hclosing

/-- A handler that is called for an event of the loop. -/
theorem TableOk.call (h : l.TableOk) {event : EpollEvent} {evt : EventMask}
    {types : List EventMask} {received : Option Str} {handler : GameHandler}
    (hevent : l.event = some (event, evt :: types))
    (hhandler : l.epoll.handler event.fd (event.events &&& evt) = some handler)
    (hstep : l.thread.step (call received event.fd (event.events &&& evt) handler) =
      some l'.thread) (hevent' : l'.event = some (event, types)) (hruns : l'.thread.Runs) :
    l'.TableOk := by
  obtain ⟨htable, hplayers, hevfd⟩ := table_of_call hstep hruns
  have hheld : l'.evfd ∉ l'.thread.game.heldFds := by
    have hle := (GameThread.settled_step (by cases handler <;> rfl)
      (fun heq => by cases handler <;> cases heq) hstep).heldFds_le
    rw [evfd, hevfd]
    exact fun hmem => h.evfdFree (Multiset.mem_of_le hle hmem)
  refine h.of_table htable hplayers hevfd hheld ?_
  intro event' types' hsome hclosing
  cases hevent'.symm.trans hsome
  obtain ⟨hne, _, hpending⟩ := h.closing event _ hevent hclosing
  obtain ⟨heq, _⟩ | ⟨_, ⟨hmask, messages, _, hpc⟩ | ⟨_, hpc, hgame⟩⟩ :=
    h.registered.call_cases hhandler hstep hruns
  · exact (hne heq).elim
  · refine ⟨hne, by rw [hpc]; exact ThreadPc.noConfusion, fun hplayer => ?_⟩
    obtain ⟨evt', hevt', hset⟩ := hpending (Multiset.mem_of_le hplayers hplayer)
    obtain rfl | hevt' := List.mem_cons.mp hevt'
    · rw [hmask] at hset
      exact absurd hset (by decide)
    · exact ⟨evt', hevt', hset⟩
  · refine ⟨hne, by rw [hpc]; exact ThreadPc.noConfusion, fun hplayer => ?_⟩
    obtain ⟨ref, client, hclient, hfd⟩ := Game.mem_playerFds.mp hplayer
    rw [hgame] at hclient
    exact (Game.findPlayer_eq_none.mp (Game.findPlayer_onClientDisconnect _ _) ref client hclient
      hfd).elim

/-- The number of the eventfd is not given to a client. -/
theorem TableOk.evfd_notMem (h : l.TableOk) {action : GameAction} (hgoes : l.goesOn action = true)
    (hstep : l.thread.step action = some l'.thread) (hruns : l'.thread.Runs) :
    l.evfd ∉ l'.thread.game.heldFds := by
  intro hmem
  by_cases hown : action.isOwn = true
  · have hdestroy : action ≠ .destroy := by
      rintro rfl
      obtain ⟨_, heq⟩ := Option.ite_none_right_eq_some.mp hstep
      exact hruns.2 (by rw [← Option.some.inj heq])
    exact h.evfdFree (Multiset.mem_of_le (GameThread.settled_step hown hdestroy hstep).heldFds_le hmem)
  · cases GameThread.effect_of_step hstep with
    | @deliver client _ _ hgame =>
      rw [hgame, Game.heldFds, EventfdQueue.data_push, List.map_append, ← Multiset.coe_add,
        ← add_assoc, Multiset.mem_add] at hmem
      obtain hmem | hmem := hmem
      · exact h.evfdFree hmem
      · exact of_decide_eq_true hgoes (List.mem_singleton.mp hmem).symm
    | output _ _ _ hgame =>
      rw [hgame] at hmem
      exact h.evfdFree hmem
    | handlerDone _ _ hgame =>
      rw [hgame] at hmem
      exact h.evfdFree hmem
    | _ => exact hown rfl

/-- The thread, or the idle thread around it, goes on. -/
theorem TableOk.thread (h : l.TableOk) {action : GameAction} (hgoes : l.goesOn action = true)
    (hstep : l.thread.step action = some l'.thread) (hevent : l'.event = l.event)
    (hruns : l'.thread.Runs) : l'.TableOk := by
  have hheld := h.evfd_notMem hgoes hstep hruns
  by_cases htake : ∃ now1 now2, action = .takeNewClient now1 now2
  · obtain ⟨now1, now2, rfl⟩ := htake
    obtain ⟨hpc, client, waiting, hdata, htaken⟩ := takeNewClient_of_step hstep hruns
    obtain ⟨epoll, hwatch, htable, hplayers, hevfd⟩ := table_of_takeNewClient hdata htaken
    have hne : client.clientFd ≠ l.evfd := by
      rintro heq
      refine h.evfdFree (Multiset.mem_add.mpr (.inr ?_))
      rw [hdata, ← heq]
      exact List.mem_cons_self
    have hmonitors := h.registered.monitors.watchClient hwatch
    refine ⟨?_, fun fd hplayer => ?_, ?_, fun event types hsome hclosing => ?_⟩
    · rw [evfd, hevfd]
      exact (h.registered.watchClient hne hwatch).of_table htable
    · change fd ∈ l'.thread.game.epoll.monitoredFds.keys
      rw [htable, hmonitors.keys, Finset.mem_insert]
      exact (Multiset.mem_cons.mp (Multiset.mem_of_le hplayers hplayer)).imp_right (h.players fd)
    · rw [evfd, hevfd]
      exact hheld
    · exact ((h.closing event types (hevent ▸ hsome) hclosing).2.1 hpc).elim
  · obtain ⟨htable, hplayers, hevfd⟩ := table_of_step hstep hruns
      (fun now1 now2 heq => htake ⟨now1, now2, heq⟩) (fun fd heq => by subst heq; cases hgoes)
    refine h.of_table htable hplayers hevfd (by rw [evfd, hevfd]; exact hheld) ?_
    intro event types hsome hclosing
    obtain ⟨hne, hpc, hpending⟩ := h.closing event types (hevent ▸ hsome) hclosing
    refine ⟨hne, fun hpc' => hpc ?_, fun hplayer =>
      hpending (Multiset.mem_of_le hplayers hplayer)⟩
    cases GameThread.effect_of_step hstep with
    | deliver _ hpc | output _ _ hpc => exact hpc.symm.trans hpc'
    | takeNewClient hpc => exact hpc
    | newClientEvent => cases hgoes
    | message _ hresume => cases (ok_of_resume hresume hruns).2.symm.trans hpc'
    | handlerDone _ hpc | receive _ hpc | receiveThrows _ _ hpc | disconnect hpc
    | removeDescriptor hpc | stop hpc => cases hpc.symm.trans hpc'
    | destroy _ heq => exact (hruns.2 (by rw [heq])).elim

theorem tableOk_step (h : l.TableOk) (hstep : step l action = some l') (hruns : l'.thread.Runs) :
    l'.TableOk := by
  cases effect_of_step hstep with
  | poll _ hpc hfd heq =>
    subst heq
    refine h.of_table rfl le_rfl rfl h.evfdFree ?_
    intro event types hsome hclosing
    cases hsome
    exact ⟨fun hevfd => hfd ⟨hevfd, hclosing⟩, by rw [hpc]; exact ThreadPc.noConfusion,
      fun _ => exists_closing_type hclosing⟩
  | gone _ _ heq | keep _ _ heq =>
    subst heq
    exact h.of_table rfl le_rfl rfl h.evfdFree fun _ _ hsome => by cases hsome
  | @skip event evt types _ hevent hmem hnone heq =>
    subst heq
    refine h.of_table rfl le_rfl rfl h.evfdFree ?_
    intro event' types' hsome hclosing
    cases hsome
    obtain ⟨hne, hpc, hpending⟩ := h.closing event _ hevent hclosing
    refine ⟨hne, hpc, fun hplayer => ?_⟩
    obtain ⟨evt', hevt', hset⟩ := hpending hplayer
    obtain rfl | hevt' := List.mem_cons.mp hevt'
    · rw [h.registered.handlers _ hmem, handlersFor, if_neg hne, if_pos hset] at hnone
      cases hnone
    · exact ⟨evt', hevt', hset⟩
  | call hevent hhandler hcall hevent' => exact h.call hevent hhandler hcall hevent' hruns
  | @remove event hevent hpc hclosing heq =>
    subst heq
    obtain ⟨hne, _, hpending⟩ := h.closing event [] hevent hclosing
    have hmonitors := h.registered.monitors.removeDescriptor event.fd
    refine ⟨h.registered.removeDescriptor hne, fun fd hplayer => ?_, h.evfdFree,
      fun _ _ hsome => by cases hsome⟩
    change fd ∈ (l.epoll.removeDescriptor event.fd).monitoredFds.keys
    rw [hmonitors.keys]
    refine Finset.mem_erase.mpr ⟨?_, h.players fd hplayer⟩
    rintro rfl
    obtain ⟨_, hnil, _⟩ := hpending hplayer
    exact (List.not_mem_nil hnil).elim
  | thread hgoes hthread hevent => exact h.thread hgoes hthread hevent hruns

theorem runs_of_step (h : step l action = some l') (hruns : l'.thread.Runs) : l.thread.Runs := by
  cases effect_of_step h with
  | call _ _ hcall => exact GameThread.runs_of_step hcall hruns
  | thread _ hthread => exact GameThread.runs_of_step hthread hruns
  | poll _ _ _ heq | gone _ _ heq | skip _ _ _ heq | remove _ _ _ heq | keep _ _ heq =>
    rw [heq] at hruns
    exact hruns

theorem tableOk_of_reachable (h : system.Reachable l) (hruns : l.thread.Runs) : l.TableOk :=
  h.invariant (P := fun l => l.thread.Runs → l.TableOk) (fun _ hinit _ => tableOk_init hinit)
    (fun _ _ _ _ ih hstep hruns' => tableOk_step (ih (runs_of_step hstep hruns')) hstep hruns')
    hruns

/-- A loop shows a run of its thread: a descriptor is removed only when its player
has been dropped. -/
theorem reachable_thread (h : system.Reachable l) : GameThread.system.Reachable l.thread := by
  have hinit : ∀ l, system.init l → GameThread.system.init l.thread := fun _ hinit => hinit.1
  refine h.refine hinit fun l action l' hreach hstep => ?_
  cases effect_of_step hstep with
  | poll _ _ _ heq | gone _ _ heq | skip _ _ _ heq | keep _ _ heq => exact .inl (by rw [heq])
  | call _ _ hcall => exact .inr ⟨_, hcall⟩
  | thread _ hthread => exact .inr ⟨_, hthread⟩
  | @remove event hevent hpc hclosing heq =>
    refine .inr ⟨.removeDescriptor event.fd, ?_⟩
    have hok := tableOk_of_reachable hreach ⟨by simp [hpc], by simp [hpc]⟩
    have hgone : l.thread.game.findPlayer event.fd = none := by
      refine Game.findPlayer_eq_none.mpr fun ref client hclient hfd => ?_
      obtain ⟨_, hnil, _⟩ := (hok.closing event [] hevent hclosing).2.2
        (Game.mem_playerFds.mpr ⟨ref, client, hclient, hfd⟩)
      exact (List.not_mem_nil hnil).elim
    rw [heq]
    exact if_pos ⟨hpc, hgone⟩

end Invariant

end GameLoop

end UpsServer
