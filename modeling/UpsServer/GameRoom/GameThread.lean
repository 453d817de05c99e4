import UpsServer.GameRoom.Arrival
import UpsServer.GameRoom.Moves
import UpsServer.Lib.Transition

open Outcome

namespace UpsServer

/-- Where a game thread is: waiting for events, in the loop of
`_onNewClientConnect`, between two messages of a read, past its event loop, or
past the destructor of its game. -/
inductive ThreadPc where
  | waiting
  | collecting
  | reading (clientFd : Int) (messages : List ProtocolData)
  | stopping
  | finished
deriving DecidableEq

structure GameThread where
  game : Game
  pc : ThreadPc := .waiting
deriving DecidableEq

/-- What can happen to a game thread. The first three actions are those of the
idle thread on the queues of the room. -/
inductive GameAction where
  | deliver (client : ProtocolClient)
  | takeOutput
  | readOutput
  | newClientEvent
  | takeNewClient (now1 now2 : UInt64)
  | collected
  | receive (clientFd : Int) (received : Option Str)
  | message (now : UInt64)
  | readDone
  | disconnect (clientFd : Int) (event : EventMask)
  | removeDescriptor (clientFd : Int)
  | stop
  | destroy
deriving DecidableEq

/-- The action is one of the game thread itself. -/
def GameAction.isOwn : GameAction → Bool
  | .deliver _ | .takeOutput | .readOutput => false
  | _ => true

namespace Game

/-- The game as it is when its event loop begins. -/
def start (gameInput : EventfdQueue ProtocolClient) (gameOutput : EventfdQueue GameStateChange) :
    Except Fault Game := do
  let epoll : Epoll GameHandler := { isEdgeTriggered := true }
  let epoll ← (epoll.addDescriptor gameInput.evfd).addEventHandler gameInput.evfd EPOLLIN
    .onNewClientConnect
  pure { gameInput := gameInput, gameOutput := gameOutput, epoll := epoll }

end Game

namespace GameThread

open Game

/-- The thread after a handler: an exception ends the event loop. Undefined
behaviour has no next state. -/
def resume (pc : ThreadPc) : Exec Game Game → Option GameThread
  | .ok g => some ⟨g, pc⟩
  | .error (fault, g) =>
    if fault.isException then some ⟨{ g with isRunning := false }, .stopping⟩ else none

/-- Reading the socket, and the messages that are left to process. -/
def receive (g : Game) (clientFd : Int) (received : Option Str) : Option GameThread :=
  match g.receiveMessages clientFd received with
  | .ok (messages, g) => some ⟨g, .reading clientFd messages⟩
  | .error e => resume .waiting (.error e)

/-- The steps of a game thread and of the idle thread around it. The events of
one batch are taken in any order, and a batch may go on after the game has
stopped running. -/
def step (t : GameThread) : GameAction → Option GameThread
  | .deliver client =>
    -- the descriptors of open sockets differ
    if client.clientFd ∈ t.game.heldFds then none
    else some { t with game := { t.game with gameInput := t.game.gameInput.push client } }
  | .takeOutput =>
    t.game.gameOutput.pop.map fun (_, gameOutput) =>
      { t with game := { t.game with gameOutput := gameOutput } }
  | .readOutput =>
    some { t with game := { t.game with gameOutput := t.game.gameOutput.eventfdRead } }
  | .newClientEvent =>
    if t.pc = .waiting ∧
      t.game.epoll.handler t.game.gameInput.evfd EPOLLIN = some .onNewClientConnect then
      some ⟨{ t.game with gameInput := t.game.gameInput.eventfdRead }, .collecting⟩
    else none
  | .takeNewClient now1 now2 =>
    if t.pc = .collecting ∧ t.game.gameInput.isEmpty = false then
      resume .collecting (t.game.takeNewClient now1 now2)
    else none
  | .collected =>
    if t.pc = .collecting ∧ t.game.gameInput.isEmpty = true then some { t with pc := .waiting } else none
  | .receive clientFd received =>
    if t.pc = .waiting ∧ t.game.epoll.handler clientFd EPOLLIN = some .onClientWrite then
      receive t.game clientFd received
    else none
  | .message now =>
    match t.pc with
    | .reading clientFd (msg :: messages) =>
      resume (.reading clientFd messages) (t.game.processClientMessage msg clientFd now)
    | _ => none
  | .readDone =>
    match t.pc with
    | .reading _ [] => some { t with pc := .waiting }
    | _ => none
  | .disconnect clientFd event =>
    if t.pc = .waiting ∧ t.game.epoll.handler clientFd event = some .onClientDisconnect then
      some { t with game := t.game.onClientDisconnect clientFd }
    else none
  | .removeDescriptor clientFd =>
    -- the end of an event that closes the descriptor, whose handler has run
    if t.pc = .waiting ∧ t.game.findPlayer clientFd = none then
      some { t with game := { t.game with epoll := t.game.epoll.removeDescriptor clientFd } }
    else none
  | .stop =>
    if t.pc = .waiting ∧ t.game.isRunning = false then some { t with pc := .stopping } else none
  | .destroy => if t.pc = .stopping then some ⟨t.game.destruct, .finished⟩ else none

/-- Runs of a game thread: from the start of its event loop, with whatever the
queues of the room hold. -/
def system : TransitionSystem GameThread GameAction where
  init t := ∃ gameInput gameOutput, (gameInput.data.map (·.clientFd)).Nodup ∧
    start gameInput gameOutput = .ok t.game ∧ t.pc = .waiting
  step t a t' := step t a = some t'

/-- The action ends a handler. -/
def endsHandler : GameAction → Bool
  | .collected | .readDone => true
  | _ => false

/-- What a step can do to the thread. -/
inductive Effect (t t' : GameThread) : GameAction → Prop where
  | deliver {client : ProtocolClient} (hnew : client.clientFd ∉ t.game.heldFds) (hpc : t'.pc = t.pc)
      (hgame : t'.game = { t.game with gameInput := t.game.gameInput.push client }) :
        Effect t t' (.deliver client)
  | output {action : GameAction} (gameOutput : EventfdQueue GameStateChange)
      (hown : action.isOwn = false)
      (hpc : t'.pc = t.pc) (hgame : t'.game = { t.game with gameOutput := gameOutput }) :
        Effect t t' action
  | newClientEvent (hpc : t'.pc = .collecting)
      (hgame : t'.game = { t.game with gameInput := t.game.gameInput.eventfdRead }) :
        Effect t t' .newClientEvent
  | takeNewClient {now1 now2 : UInt64} (hpc : t.pc = .collecting)
      (hinput : t.game.gameInput.isEmpty = false)
      (hresume : resume .collecting (t.game.takeNewClient now1 now2) = some t') :
        Effect t t' (.takeNewClient now1 now2)
  | handlerDone {action : GameAction} (hdone : endsHandler action = true) (hpc : t'.pc = .waiting)
      (hgame : t'.game = t.game) : Effect t t' action
  | receive {clientFd : Int} {received : Option Str} {messages : List ProtocolData}
      (hreceive : t.game.receiveMessages clientFd received = .ok (messages, t'.game))
      (hpc : t'.pc = .reading clientFd messages) : Effect t t' (.receive clientFd received)
  | receiveThrows {clientFd : Int} {received : Option Str} {fault : Fault}
      (hreceive : t.game.receiveMessages clientFd received = .error (fault, t.game))
      (hfault : fault.isException = true)
      (hpc : t'.pc = .stopping) (hgame : t'.game = { t.game with isRunning := false }) :
      Effect t t' (.receive clientFd received)
  | message {now : UInt64} {clientFd : Int} {msg : ProtocolData} {messages : List ProtocolData}
      (hpc : t.pc = .reading clientFd (msg :: messages))
      (hresume : resume (.reading clientFd messages)
        (t.game.processClientMessage msg clientFd now) = some t') : Effect t t' (.message now)
  | disconnect {clientFd : Int} {event : EventMask} (hpc : t'.pc = .waiting)
      (hgame : t'.game = t.game.onClientDisconnect clientFd) :
        Effect t t' (.disconnect clientFd event)
  | removeDescriptor {clientFd : Int} (hpc : t'.pc = .waiting)
      (hgame : t'.game = { t.game with epoll := t.game.epoll.removeDescriptor clientFd }) :
      Effect t t' (.removeDescriptor clientFd)
  | stop (hpc : t'.pc = .stopping) (hgame : t'.game = t.game) : Effect t t' .stop
  | destroy (hpc : t.pc = .stopping) (heq : t' = ⟨t.game.destruct, .finished⟩) :
      Effect t t' .destroy

theorem resume_eq_some {pc : ThreadPc} {x : Exec Game Game} {t : GameThread}
    (h : resume pc x = some t) :
    Ends (fun g => t.game = g ∨ t.game = { g with isRunning := false }) x := by
  cases x with
  | ok g =>
    cases h
    exact .inl rfl
  | error e =>
    obtain ⟨fault, g⟩ := e
    simp only [resume] at h
    split at h
    · cases h
      exact .inr rfl
    · cases h

theorem effect_of_step {t t' : GameThread} {action : GameAction} (h : step t action = some t') :
    Effect t t' action := by
  cases action with
  | deliver client =>
    obtain ⟨hnew, h⟩ := Option.ite_none_left_eq_some.mp h
    cases h
    exact .deliver hnew rfl rfl
  | takeOutput =>
    obtain ⟨⟨change, gameOutput⟩, _, rfl⟩ := Option.map_eq_some_iff.mp h
    exact .output gameOutput rfl rfl rfl
  | readOutput =>
    cases h
    exact .output _ rfl rfl rfl
  | newClientEvent =>
    obtain ⟨_, h⟩ := Option.ite_none_right_eq_some.mp h
    cases h
    exact .newClientEvent rfl rfl
  | takeNewClient now1 now2 =>
    obtain ⟨⟨hpc, hinput⟩, h⟩ := Option.ite_none_right_eq_some.mp h
    exact .takeNewClient hpc hinput h
  | collected =>
    obtain ⟨_, h⟩ := Option.ite_none_right_eq_some.mp h
    cases h
    exact .handlerDone rfl rfl rfl
  | receive clientFd received =>
    obtain ⟨_, h⟩ := Option.ite_none_right_eq_some.mp h
    simp only [receive] at h
    split at h
    · rename_i messages g hreceive
      cases h
      exact .receive hreceive rfl
    · rename_i e hreceive
      have hreads := reads_receiveMessages t.game clientFd received
      rw [hreceive, reads_error] at hreads
      obtain ⟨fault, g⟩ := e
      obtain rfl : g = t.game := hreads
      obtain ⟨hfault, h⟩ := Option.ite_none_right_eq_some.mp h
      cases h
      exact .receiveThrows hreceive hfault rfl rfl
  | message now =>
    simp only [step] at h
    split at h
    · rename_i clientFd msg messages hpc
      exact .message hpc h
    · cases h
  | readDone =>
    simp only [step] at h
    split at h
    · cases h
      exact .handlerDone rfl rfl rfl
    · cases h
  | disconnect clientFd event =>
    obtain ⟨⟨hpc, _⟩, h⟩ := Option.ite_none_right_eq_some.mp h
    cases h
    exact .disconnect hpc rfl
  | removeDescriptor clientFd =>
    obtain ⟨⟨hpc, _⟩, h⟩ := Option.ite_none_right_eq_some.mp h
    cases h
    exact .removeDescriptor hpc rfl
  | stop =>
    obtain ⟨_, h⟩ := Option.ite_none_right_eq_some.mp h
    cases h
    exact .stop rfl rfl
  | destroy =>
    obtain ⟨hpc, h⟩ := Option.ite_none_right_eq_some.mp h
    cases h
    exact .destroy hpc rfl

end GameThread

end UpsServer
