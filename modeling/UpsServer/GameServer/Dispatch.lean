import UpsServer.GameServer.Ownership
import UpsServer.GameServer.Representation
import UpsServer.Linux.EventTable

namespace UpsServer

namespace IdleUsersRoom

/-- The event descriptor by which a room reports state changes. -/
def outputEvfd (idle : IdleUsersRoom) (roomId : Int) : Option Int :=
  (idle.gameRooms.get? roomId).map (·.gameOutput.evfd)

/-- The output of a room that has had a game, whether or not it still has one. -/
def Reports (idle : IdleUsersRoom) (hadGame : Int → Prop) (fd : Int) : Prop :=
  ∃ roomId, hadGame roomId ∧ idle.outputEvfd roomId = some fd

/-- What the idle thread does when one of the queues is signalled. A room reports
from its first game on. -/
inductive QueueHandler (idle : IdleUsersRoom) (hadGame : Int → Prop) (fd : Int) (evt : EventMask) :
    IdleHandler → Prop where
  | newClient (hfd : fd = idle.newClientsQueue.evfd) (hevt : evt = EPOLLIN) :
      QueueHandler idle hadGame fd evt .onNewClientConnect
  | stateChange {roomId : Int} (hgame : hadGame roomId)
      (houtput : idle.outputEvfd roomId = some fd) (hevt : evt = EPOLLIN) :
      QueueHandler idle hadGame fd evt (.onGameStateChange roomId)

/-- What the idle thread does about an event. -/
def Dispatches (idle : IdleUsersRoom) (hadGame : Int → Prop) (fd : Int) (evt : EventMask)
    (x : IdleHandler) : Prop :=
  idle.Owns fd ∧ Epoll.WatchHandler .onClientWrite .onClientDisconnect evt x ∨
    idle.QueueHandler hadGame fd evt x

/-- The queues have descriptors of their own. -/
structure EvfdsApart (idle : IdleUsersRoom) : Prop where
  newClients : ∀ roomId, idle.outputEvfd roomId ≠ some idle.newClientsQueue.evfd
  outputs : ∀ roomId roomId' fd, idle.outputEvfd roomId = some fd →
    idle.outputEvfd roomId' = some fd → roomId = roomId'

/-- The idle thread is told of what concerns its clients, the queue of new clients
and the rooms that have had a game, and of nothing else. -/
structure EventTable (idle : IdleUsersRoom) (hadGame : Int → Prop) : Prop where
  serves : idle.epoll.Serves (idle.Dispatches hadGame)
  edgeTriggered : idle.epoll.isEdgeTriggered = true
  apart : idle.EvfdsApart
  monitored : ∀ fd ∈ idle.epoll.monitoredFds.keys,
    idle.Owns fd ∨ fd = idle.newClientsQueue.evfd ∨ idle.Reports hadGame fd
  busy : ∀ roomId room, idle.gameRooms.get? roomId = some room → room.gameState ≠ .IDLE →
    hadGame roomId

/-- What the kernel listens for on behalf of the idle thread. -/
structure KernelListens (idle : IdleUsersRoom) (hadGame : Int → Prop) : Prop where
  clients : ∀ fd, idle.Owns fd →
    idle.epoll.interest.get? fd = some (EPOLLIN ||| EPOLLRDHUP ||| EPOLLHUP ||| EPOLLET)
  newClients : idle.epoll.interest.get? idle.newClientsQueue.evfd = some (EPOLLIN ||| EPOLLET)
  rooms : ∀ fd, idle.Reports hadGame fd →
    idle.epoll.interest.get? fd = some (EPOLLIN ||| EPOLLET)
  nothingElse : ∀ fd mask, idle.epoll.interest.get? fd = some mask →
    idle.Owns fd ∨ fd = idle.newClientsQueue.evfd ∨ idle.Reports hadGame fd

/-- The queues have the same descriptors as before. -/
structure SameEvfds (idle idle' : IdleUsersRoom) : Prop where
  newClients : idle'.newClientsQueue.evfd = idle.newClientsQueue.evfd
  outputs : ∀ roomId, idle'.outputEvfd roomId = idle.outputEvfd roomId

/-- No room has become busy. -/
def NoneStarted (idle idle' : IdleUsersRoom) : Prop :=
  ∀ roomId room', idle'.gameRooms.get? roomId = some room' → room'.gameState ≠ .IDLE →
    ∃ room, idle.gameRooms.get? roomId = some room ∧ room.gameState ≠ .IDLE

variable {idle idle' : IdleUsersRoom} {hadGame : Int → Prop} {fd clientFd roomId : Int}
  {evt : EventMask} {x : IdleHandler}

private theorem outputEvfd_eq {room : GameRoom} (hroom : idle.gameRooms.get? roomId = some room) :
    idle.outputEvfd roomId = some room.gameOutput.evfd := by
  rw [outputEvfd, hroom, Option.map_some]

theorem sameEvfds_of_rooms (hqueue : idle'.newClientsQueue.evfd = idle.newClientsQueue.evfd)
    (hrooms : idle'.gameRooms = idle.gameRooms) : SameEvfds idle idle' :=
  ⟨hqueue, fun roomId => by rw [outputEvfd, hrooms, outputEvfd]⟩

theorem sameEvfds_of_modify {f : GameRoom → GameRoom}
    (hqueue : idle'.newClientsQueue.evfd = idle.newClientsQueue.evfd)
    (hrooms : idle'.gameRooms = idle.gameRooms.modify roomId f)
    (hf : ∀ room, idle.gameRooms.get? roomId = some room →
      (f room).gameOutput.evfd = room.gameOutput.evfd) : SameEvfds idle idle' := by
  refine ⟨hqueue, fun id => ?_⟩
  rw [outputEvfd, hrooms]
  exact map_get?_modify (fun room => room.gameOutput.evfd) idle.gameRooms hf id

theorem noneStarted_of_rooms (hrooms : idle'.gameRooms = idle.gameRooms) : NoneStarted idle idle' :=
  fun _ room' hroom' hbusy => ⟨room', hrooms ▸ hroom', hbusy⟩

theorem noneStarted_of_modify {f : GameRoom → GameRoom}
    (hrooms : idle'.gameRooms = idle.gameRooms.modify roomId f)
    (hf : ∀ room, idle.gameRooms.get? roomId = some room → (f room).gameState ≠ .IDLE →
      room.gameState ≠ .IDLE) : NoneStarted idle idle' := by
  intro id room' hroom' hbusy
  rw [hrooms, UnorderedMap.get?_modify] at hroom'
  split at hroom'
  · rename_i heq
    subst heq
    obtain ⟨room, hroom, rfl⟩ := Option.map_eq_some_iff.mp hroom'
    exact ⟨room, hroom, hf room hroom hbusy⟩
  · exact ⟨room', hroom', hbusy⟩

private theorem isEvfd_of_outputEvfd (h : idle.outputEvfd roomId = some fd) : idle.isEvfd fd = true := by
  obtain ⟨room, hroom, rfl⟩ := Option.map_eq_some_iff.mp h
  exact isEvfd_output hroom

private theorem isEvfd_newClients (idle : IdleUsersRoom) :
    idle.isEvfd idle.newClientsQueue.evfd = true :=
  isEvfd_eq_true.mpr (.inl rfl)

theorem Reports.isEvfd (h : idle.Reports hadGame fd) : idle.isEvfd fd = true := by
  obtain ⟨roomId, _, houtput⟩ := h
  exact isEvfd_of_outputEvfd houtput

theorem QueueHandler.isEvfd (h : idle.QueueHandler hadGame fd evt x) : idle.isEvfd fd = true := by
  cases h with
  | newClient hfd => exact hfd ▸ isEvfd_newClients idle
  | stateChange _ houtput => exact isEvfd_of_outputEvfd houtput

/-- A descriptor that is not one of a queue has no queue handler. -/
theorem not_queueHandler (hfd : idle.isEvfd fd = false) : ¬ idle.QueueHandler hadGame fd evt x := by
  intro h
  rw [h.isEvfd] at hfd
  cases hfd

theorem SameEvfds.reports_iff (h : SameEvfds idle idle') :
    idle'.Reports hadGame fd ↔ idle.Reports hadGame fd := by
  simp only [Reports, h.outputs]

theorem SameEvfds.queueHandler_iff (h : SameEvfds idle idle') :
    idle'.QueueHandler hadGame fd evt x ↔ idle.QueueHandler hadGame fd evt x := by
  constructor
  · intro hhandler
    cases hhandler with
    | newClient hfd hevt => exact .newClient (hfd.trans h.newClients) hevt
    | stateChange hgame houtput hevt =>
      exact .stateChange hgame ((h.outputs _).symm.trans houtput) hevt
  · intro hhandler
    cases hhandler with
    | newClient hfd hevt => exact .newClient (hfd.trans h.newClients.symm) hevt
    | stateChange hgame houtput hevt => exact .stateChange hgame ((h.outputs _).trans houtput) hevt

/-- One more room reports. -/
theorem queueHandler_starts {output : Int} (hapart : idle.EvfdsApart) (hevfds : SameEvfds idle idle')
    (houtput : idle.outputEvfd roomId = some output) :
    idle'.QueueHandler (fun id => id = roomId ∨ hadGame id) fd evt x ↔
      if fd = output ∧ evt = EPOLLIN then x = .onGameStateChange roomId
      else idle.QueueHandler hadGame fd evt x := by
  rw [hevfds.queueHandler_iff]
  split
  · rename_i hreport
    obtain ⟨rfl, rfl⟩ := hreport
    constructor
    · intro hhandler
      cases hhandler with
      | newClient hfd => exact (hapart.newClients roomId (hfd ▸ houtput)).elim
      | stateChange _ houtput' => rw [hapart.outputs _ _ _ houtput' houtput]
    · rintro rfl
      exact .stateChange (.inl rfl) houtput rfl
  · rename_i hother
    constructor
    · intro hhandler
      cases hhandler with
      | newClient hfd hevt => exact .newClient hfd hevt
      | stateChange hgame houtput' hevt =>
        refine .stateChange (hgame.resolve_left ?_) houtput' hevt
        rintro rfl
        exact hother ⟨Option.some.inj (houtput'.symm.trans houtput), hevt⟩
    · intro hhandler
      cases hhandler with
      | newClient hfd hevt => exact .newClient hfd hevt
      | stateChange hgame houtput' hevt => exact .stateChange (.inr hgame) houtput' hevt

theorem EvfdsApart.congr (h : idle.EvfdsApart) (hevfds : SameEvfds idle idle') :
    idle'.EvfdsApart where
  newClients := fun roomId => by
    rw [hevfds.outputs, hevfds.newClients]
    exact h.newClients roomId
  outputs := fun roomId roomId' fd houtput houtput' =>
    h.outputs roomId roomId' fd (hevfds.outputs roomId ▸ houtput) (hevfds.outputs roomId' ▸ houtput')

namespace EventTable

variable (h : idle.EventTable hadGame) (hevfds : SameEvfds idle idle')
  (hstarted : NoneStarted idle idle')
include h

/-- The rooms that have had a game are the same, in other words. -/
theorem of_iff {hadGame' : Int → Prop} (hiff : ∀ roomId, hadGame' roomId ↔ hadGame roomId) :
    idle.EventTable hadGame' := by
  obtain rfl : hadGame' = hadGame := funext fun roomId => propext (hiff roomId)
  exact h

/-- Nobody watches a stranger. -/
theorem notMem_keys (hfd : idle.isEvfd fd = false) (hstranger : ¬ idle.Owns fd) :
    fd ∉ idle.epoll.monitoredFds.keys := by
  intro hmem
  obtain howns | rfl | hreports := h.monitored fd hmem
  · exact hstranger howns
  · rw [isEvfd_newClients] at hfd
    cases hfd
  · rw [hreports.isEvfd] at hfd
    cases hfd

include hstarted in
private theorem busy_of (roomId : Int) (room' : GameRoom) (hroom' : idle'.gameRooms.get? roomId = some room')
    (hbusy : room'.gameState ≠ .IDLE) : hadGame roomId := by
  obtain ⟨room, hroom, hbusy⟩ := hstarted roomId room' hroom' hbusy
  exact h.busy roomId room hroom hbusy

include hevfds hstarted in
/-- The clients and the descriptors are the same. -/
theorem congr (howns : ∀ fd, idle'.Owns fd ↔ idle.Owns fd) (hepoll : idle'.epoll = idle.epoll) :
    idle'.EventTable hadGame where
  serves := by
    rw [hepoll]
    refine h.serves.congr fun fd evt x => ?_
    rw [Dispatches, Dispatches, howns, hevfds.queueHandler_iff]
  edgeTriggered := hepoll ▸ h.edgeTriggered
  apart := h.apart.congr hevfds
  monitored := by
    simp only [howns, hevfds.newClients, hevfds.reports_iff, hepoll]
    exact h.monitored
  busy := h.busy_of hstarted

/-- Sockets that are not watched may be closed. -/
theorem kernelCloses {fds : List Int} (hfds : ∀ fd ∈ fds, fd ∉ idle.epoll.monitoredFds.keys) :
    ({ idle with epoll := fds.foldl Epoll.kernelClose idle.epoll } : IdleUsersRoom).EventTable
      hadGame := by
  induction fds generalizing idle with
  | nil => exact h
  | cons fd fds ih =>
    obtain ⟨hfd, hfds⟩ := List.forall_mem_cons.mp hfds
    have hsame : SameEvfds idle { idle with epoll := idle.epoll.kernelClose fd } :=
      sameEvfds_of_rooms rfl rfl
    have hclosed : ({ idle with epoll := idle.epoll.kernelClose fd } : IdleUsersRoom).EventTable
        hadGame := by
      refine ⟨(h.serves.kernelClose hfd).congr fun fd evt x => ?_, h.edgeTriggered,
        h.apart.congr hsame, h.monitored, h.busy⟩
      exact or_congr_right hsame.queueHandler_iff.symm
    exact ih hclosed hfds

include hevfds hstarted in
/-- A client leaves, and perhaps his socket is closed. -/
theorem leaves (hfd : idle.isEvfd clientFd = false)
    (howns : ∀ fd, idle'.Owns fd ↔ idle.Owns fd ∧ fd ≠ clientFd)
    (hepoll : idle'.epoll = idle.epoll.removeDescriptor clientFd ∨
      idle'.epoll = (idle.epoll.removeDescriptor clientFd).kernelClose clientFd) :
    idle'.EventTable hadGame := by
  have hkeys : idle'.epoll.monitoredFds.keys = idle.epoll.monitoredFds.keys.erase clientFd := by
    rcases hepoll with hepoll | hepoll
    · rw [hepoll, Epoll.keys_removeDescriptor]
    · rw [hepoll, ← Epoll.keys_removeDescriptor]
      rfl
  have hremoved := h.serves.removeDescriptor clientFd
  have hserves : idle'.epoll.Serves fun fd evt x =>
      fd ≠ clientFd ∧ idle.Dispatches hadGame fd evt x := by
    rcases hepoll with hepoll | hepoll
    · rw [hepoll]
      exact hremoved
    · rw [hepoll]
      refine hremoved.kernelClose ?_
      rw [Epoll.keys_removeDescriptor]
      exact Finset.notMem_erase clientFd _
  refine ⟨hserves.congr fun fd evt x => ?_, ?_, h.apart.congr hevfds, fun fd hin => ?_,
    h.busy_of hstarted⟩
  · rw [Dispatches, Dispatches, howns, hevfds.queueHandler_iff]
    have hne : idle.QueueHandler hadGame fd evt x → fd ≠ clientFd := by
      rintro hhandler rfl
      exact not_queueHandler hfd hhandler
    grind
  · have hmode : (idle.epoll.removeDescriptor clientFd).isEdgeTriggered = true := by
      rw [← h.edgeTriggered, Epoll.removeDescriptor]
      split <;> rfl
    rcases hepoll with hepoll | hepoll
    · exact hepoll ▸ hmode
    · exact hepoll ▸ hmode
  · rw [hkeys, Finset.mem_erase] at hin
    rw [howns, hevfds.newClients, hevfds.reports_iff]
    exact (h.monitored fd hin.2).imp_left fun howns => ⟨howns, hin.1⟩

include hevfds hstarted in
/-- A client who has come is watched. -/
theorem joins {epoll : Epoll IdleHandler} (hfd : idle.isEvfd clientFd = false)
    (hstranger : ¬ idle.Owns clientFd)
    (hwatch : idle.epoll.watchClient clientFd .onClientWrite .onClientDisconnect = .ok epoll)
    (howns : ∀ fd, idle'.Owns fd ↔ fd = clientFd ∨ idle.Owns fd) (hepoll : idle'.epoll = epoll) :
    idle'.EventTable hadGame := by
  obtain ⟨epoll', hwatch', hkeys, hmode, hserves⟩ := h.serves.watchClient
    (h.notMem_keys hfd hstranger) IdleHandler.onClientWrite IdleHandler.onClientDisconnect
  cases hwatch.symm.trans hwatch'
  subst hepoll
  refine ⟨hserves.congr fun fd evt x => ?_, hmode.trans h.edgeTriggered, h.apart.congr hevfds,
    fun fd hin => ?_, h.busy_of hstarted⟩
  · rw [Dispatches, Dispatches, howns, hevfds.queueHandler_iff, or_and_right, or_assoc]
  · rw [hkeys, Finset.mem_insert] at hin
    rw [howns, hevfds.newClients, hevfds.reports_iff]
    rcases hin with hself | hin
    · exact .inl (.inl hself)
    · exact (h.monitored fd hin).imp_left .inr

/-- A room in which a game starts reports from now on, if it did not already. -/
theorem starts {room : GameRoom} (hevfds : SameEvfds idle idle')
    (hroom : idle.gameRooms.get? roomId = some room)
    (hstrangers : ∀ fd, idle.Owns fd → idle.isEvfd fd = false)
    (howns : ∀ fd, idle'.Owns fd ↔ idle.Owns fd)
    (hadd : (idle.epoll.addDescriptor room.gameOutput.evfd).addEventHandler room.gameOutput.evfd
      EPOLLIN (.onGameStateChange roomId) = .ok idle'.epoll)
    (hstarted : ∀ id room', id ≠ roomId → idle'.gameRooms.get? id = some room' →
      room'.gameState ≠ .IDLE →
        ∃ room, idle.gameRooms.get? id = some room ∧ room.gameState ≠ .IDLE) :
    idle'.EventTable fun id => id = roomId ∨ hadGame id := by
  obtain ⟨epoll, hadd', hkeys, hmode, hserves⟩ :=
    h.serves.addEventHandler room.gameOutput.evfd EPOLLIN (.onGameStateChange roomId)
  cases hadd.symm.trans hadd'
  have houtput := outputEvfd_eq hroom
  refine ⟨hserves.congr fun fd evt x => ?_, hmode.trans h.edgeTriggered, h.apart.congr hevfds,
    fun fd hin => ?_, fun id room' hroom' hbusy => ?_⟩
  · simp only [Dispatches, howns, queueHandler_starts h.apart hevfds houtput,
      Epoll.contains_EPOLLIN]
    by_cases hreport : fd = room.gameOutput.evfd ∧ evt = EPOLLIN
    · rw [if_pos hreport, if_pos hreport]
      refine (or_iff_right fun hclient => ?_).symm
      rw [hreport.1] at hclient
      have hfd := hstrangers _ hclient.1
      rw [isEvfd_output hroom] at hfd
      cases hfd
    · rw [if_neg hreport, if_neg hreport]
  · rw [hkeys, Finset.mem_insert] at hin
    rw [howns, hevfds.newClients, hevfds.reports_iff]
    rcases hin with rfl | hin
    · exact .inr (.inr ⟨roomId, .inl rfl, houtput⟩)
    · refine (h.monitored fd hin).imp_right (.imp_right ?_)
      exact fun ⟨id, hgame, hid⟩ => ⟨id, .inr hgame, hid⟩
  · by_cases hid : id = roomId
    · exact .inl hid
    · obtain ⟨before, hbefore, hbusy⟩ := hstarted id room' hid hroom' hbusy
      exact .inr (h.busy id before hbefore hbusy)

theorem interest_queue (hstranger : ¬ idle.Owns fd)
    (hhandler : ∃ x, idle.QueueHandler hadGame fd EPOLLIN x) :
    idle.epoll.interest.get? fd = some (EPOLLIN ||| EPOLLET) := by
  obtain ⟨x, hx⟩ := hhandler
  have hmask := h.serves.interest_eq (h.serves.mem_keys (.inr hx)) [EPOLLIN] fun evt _ => by
    rw [List.mem_singleton]
    constructor
    · rintro ⟨x, ⟨howns, _⟩ | hqueue⟩
      · exact (hstranger howns).elim
      · cases hqueue with
        | newClient _ hevt | stateChange _ _ hevt => exact hevt
    · rintro rfl
      exact ⟨x, .inr hx⟩
  rw [hmask, Epoll.triggering, h.edgeTriggered]
  rfl

theorem interest_client (howns : idle.Owns fd) (hfd : idle.isEvfd fd = false) :
    idle.epoll.interest.get? fd = some (EPOLLIN ||| EPOLLRDHUP ||| EPOLLHUP ||| EPOLLET) := by
  have hwrite : idle.Dispatches hadGame fd EPOLLIN .onClientWrite := .inl ⟨howns, .inl ⟨rfl, rfl⟩⟩
  have hmask := h.serves.interest_eq (h.serves.mem_keys hwrite)
    [EPOLLIN, EPOLLRDHUP, EPOLLHUP] fun evt _ => by
      rw [List.mem_cons, List.mem_cons, List.mem_singleton]
      constructor
      · rintro ⟨x, ⟨_, ⟨hevt, _⟩ | ⟨hevt, _⟩⟩ | hqueue⟩
        · exact .inl hevt
        · exact .inr hevt
        · exact (not_queueHandler hfd hqueue).elim
      · rintro (hevt | hevt)
        · exact ⟨_, .inl ⟨howns, .inl ⟨hevt, rfl⟩⟩⟩
        · exact ⟨_, .inl ⟨howns, .inr ⟨hevt, rfl⟩⟩⟩
  rw [hmask, Epoll.triggering, h.edgeTriggered]
  rfl

theorem kernelListens (hstrangers : ∀ fd, idle.Owns fd → idle.isEvfd fd = false) :
    idle.KernelListens hadGame where
  clients := fun fd howns => h.interest_client howns (hstrangers fd howns)
  newClients := by
    refine h.interest_queue (fun howns => ?_) ⟨_, .newClient rfl rfl⟩
    have hfd := hstrangers _ howns
    rw [isEvfd_newClients] at hfd
    cases hfd
  rooms := fun fd hreports => by
    obtain ⟨roomId, hgame, houtput⟩ := hreports
    refine h.interest_queue (fun howns => ?_) ⟨_, .stateChange hgame houtput rfl⟩
    have hfd := hstrangers _ howns
    rw [isEvfd_of_outputEvfd houtput] at hfd
    cases hfd
  nothingElse := fun fd mask hmask => by
    refine h.monitored fd ?_
    by_contra hnot
    rw [h.serves.interest_of_notMem hnot] at hmask
    cases hmask

end EventTable

end IdleUsersRoom

end UpsServer
