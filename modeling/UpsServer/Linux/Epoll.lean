import UpsServer.Basic
import UpsServer.Lib.UnorderedMap

namespace UpsServer

/-- Event types and sets of them, as in `<sys/epoll.h>`. -/
abbrev EventMask := BitVec 32

def EPOLLIN : EventMask := 0x001
def EPOLLPRI : EventMask := 0x002
def EPOLLOUT : EventMask := 0x004
def EPOLLERR : EventMask := 0x008
def EPOLLHUP : EventMask := 0x010
def EPOLLRDHUP : EventMask := 0x2000
def EPOLLET : EventMask := 0x80000000

def allEventTypes : List EventMask := [EPOLLIN, EPOLLOUT, EPOLLRDHUP, EPOLLPRI, EPOLLERR, EPOLLHUP]

/-- A descriptor and its handlers, which are taken from the type `H`. -/
structure MonitoredDescriptor (H : Type) where
  monitoredFd : Int
  isInitialized : Bool := false
  IN_handler : Option H := none
  OUT_handler : Option H := none
  RDHUP_handler : Option H := none
  PRI_handler : Option H := none
  ERR_handler : Option H := none
  HUP_handler : Option H := none
deriving DecidableEq

namespace MonitoredDescriptor

variable {H : Type}

/-- The handler of a single event type, if it is set. -/
def getHandler (md : MonitoredDescriptor H) (eventType : EventMask) : Option H :=
  if eventType = EPOLLIN then md.IN_handler
  else if eventType = EPOLLOUT then md.OUT_handler
  else if eventType = EPOLLRDHUP then md.RDHUP_handler
  else if eventType = EPOLLPRI then md.PRI_handler
  else if eventType = EPOLLERR then md.ERR_handler
  else if eventType = EPOLLHUP then md.HUP_handler
  else none

def hasHandler (md : MonitoredDescriptor H) (eventType : EventMask) : Bool :=
  (md.getHandler eventType).isSome

/-- Sets the handler of a single event type. -/
def setHandler (md : MonitoredDescriptor H) (eventType : EventMask) (handler : Option H) :
    MonitoredDescriptor H :=
  if eventType = EPOLLIN then { md with IN_handler := handler }
  else if eventType = EPOLLOUT then { md with OUT_handler := handler }
  else if eventType = EPOLLRDHUP then { md with RDHUP_handler := handler }
  else if eventType = EPOLLPRI then { md with PRI_handler := handler }
  else if eventType = EPOLLERR then { md with ERR_handler := handler }
  else if eventType = EPOLLHUP then { md with HUP_handler := handler }
  else md

end MonitoredDescriptor

/-- The table of an epoll object and the interest set the kernel keeps for it. -/
structure Epoll (H : Type) where
  monitoredFds : UnorderedMap Int (MonitoredDescriptor H) := ∅
  interest : UnorderedMap Int EventMask := ∅
  isEdgeTriggered : Bool
deriving DecidableEq

namespace Epoll

variable {H : Type}

def addDescriptor (e : Epoll H) (fd : Int) : Epoll H :=
  match e.monitoredFds.get? fd with
  | some _ => e
  | none => { e with monitoredFds := e.monitoredFds.set fd { monitoredFd := fd } }

def removeDescriptor (e : Epoll H) (monitoredFd : Int) : Epoll H :=
  match e.monitoredFds.get? monitoredFd with
  | some _ =>
    { e with interest := e.interest.erase monitoredFd, monitoredFds := e.monitoredFds.erase monitoredFd }
  | none => e

/-- `EPOLL_CTL_ADD` fails on a descriptor that is present. -/
def epollCtlAdd (e : Epoll H) (fd : Int) (events : EventMask) : Except Fault (Epoll H) :=
  match e.interest.get? fd with
  | some _ =>
    .error (.runtimeError "Epoll::_epollCtlAdd: ERROR - Failed adding event to descriptor.")
  | none => .ok { e with interest := e.interest.set fd events }

/-- `EPOLL_CTL_MOD` fails on a descriptor that is absent. -/
def epollCtlModify (e : Epoll H) (fd : Int) (events : EventMask) : Except Fault (Epoll H) :=
  match e.interest.get? fd with
  | some _ => .ok { e with interest := e.interest.set fd events }
  | none =>
    .error
      (.runtimeError "Epoll::_epollCtlModify: ERROR - Failed modifying file descriptor events.")

/-- The events all handlers of a descriptor ask for. -/
def resultingEvents (e : Epoll H) (md : MonitoredDescriptor H) : EventMask :=
  let (resultingEvents, firstEvt) := allEventTypes.foldl (fun (acc : EventMask × Bool) evt =>
    if md.hasHandler evt then
      if acc.2 then (evt, false) else (acc.1 ||| evt, false)
    else acc) (0, true)
  if e.isEdgeTriggered then
    if firstEvt then EPOLLET else resultingEvents ||| EPOLLET
  else resultingEvents

/-- Registers the events of `md` with the kernel and stores `md` in the table.
"EPOLL_CTL_ADD" can be called for a single descriptor only once. -/
def reloadEventHandlers (e : Epoll H) (md : MonitoredDescriptor H) : Except Fault (Epoll H) :=
  if md.isInitialized then do
    let e' ← e.epollCtlModify md.monitoredFd (e.resultingEvents md)
    pure { e' with monitoredFds := e'.monitoredFds.set md.monitoredFd md }
  else do
    let e' ← e.epollCtlAdd md.monitoredFd (e.resultingEvents md)
    pure { e' with monitoredFds := e'.monitoredFds.set md.monitoredFd { md with isInitialized := true } }

def addEventHandler (e : Epoll H) (monitoredFd : Int) (eventType : EventMask) (eventHandler : H) :
    Except Fault (Epoll H) :=
  match e.monitoredFds.get? monitoredFd with
  | none => .error (.outOfRange "unordered_map::at")
  | some md => e.reloadEventHandlers <| allEventTypes.foldl (fun md evt =>
      if eventType &&& evt ≠ 0 then md.setHandler evt (some eventHandler) else md) md

def removeEventHandler (e : Epoll H) (monitoredFd : Int) (eventType : EventMask) :
    Except Fault (Epoll H) :=
  match e.monitoredFds.get? monitoredFd with
  | none => .error (.outOfRange "unordered_map::at")
  | some md => e.reloadEventHandlers <| allEventTypes.foldl (fun md evt =>
      if md.hasHandler (eventType &&& evt) then md.setHandler (eventType &&& evt) none else md) md

/-- Closing a descriptor takes it out of the interest set; the table of the
epoll object does not notice. -/
def kernelClose (e : Epoll H) (fd : Int) : Epoll H := { e with interest := e.interest.erase fd }

/-- The three calls by which the idle room and the games start to watch a
client. -/
def watchClient (e : Epoll H) (fd : Int) (onClientWrite onClientDisconnect : H) :
    Except Fault (Epoll H) := do
  let e ← (e.addDescriptor fd).addEventHandler fd EPOLLIN onClientWrite
  e.addEventHandler fd (EPOLLRDHUP ||| EPOLLHUP) onClientDisconnect

private theorem isException_of_reloadEventHandlers {e : Epoll H} {md : MonitoredDescriptor H}
    {fault : Fault} (h : e.reloadEventHandlers md = .error fault) : fault.isException = true := by
  unfold reloadEventHandlers epollCtlModify epollCtlAdd at h
  split at h
  · split at h <;> cases h
    rfl
  · split at h <;> cases h
    rfl

private theorem isException_of_addEventHandler {e : Epoll H} {fd : Int} {eventType : EventMask}
    {eventHandler : H} {fault : Fault}
    (h : e.addEventHandler fd eventType eventHandler = .error fault) :
    fault.isException = true := by
  unfold addEventHandler at h
  split at h
  · cases h
    rfl
  · exact isException_of_reloadEventHandlers h

/-- The calls of an epoll object fail with exceptions only. -/
theorem isException_of_watchClient {e : Epoll H} {fd : Int} {onClientWrite onClientDisconnect : H}
    {fault : Fault} (h : e.watchClient fd onClientWrite onClientDisconnect = .error fault) :
    fault.isException = true := by
  rcases bind_eq_error.mp h with h | ⟨_, _, h⟩
  · exact isException_of_addEventHandler h
  · exact isException_of_addEventHandler h

/-- The handler the table holds for a descriptor and a single event type. -/
def handler (e : Epoll H) (fd : Int) (eventType : EventMask) : Option H :=
  (e.monitoredFds.get? fd).bind (·.getHandler eventType)

/-- The table of the epoll object has an entry for exactly these descriptors,
each under its own number. -/
structure Monitors (e : Epoll H) (fds : Finset Int) : Prop where
  keys : e.monitoredFds.keys = fds
  own : ∀ fd md, e.monitoredFds.get? fd = some md → md.monitoredFd = fd

section Monitors

variable {e e' : Epoll H} {fds : Finset Int}

theorem monitors_empty (isEdgeTriggered : Bool) :
    ({ isEdgeTriggered := isEdgeTriggered } : Epoll H).Monitors ∅ :=
  ⟨UnorderedMap.keys_empty, fun _ _ hmd => nomatch hmd⟩

theorem Monitors.addDescriptor (h : e.Monitors fds) (fd : Int) :
    (e.addDescriptor fd).Monitors (insert fd fds) := by
  unfold Epoll.addDescriptor
  split
  · rename_i hmd
    have hmem : fd ∈ fds := h.keys ▸ UnorderedMap.mem_keys_of_get? hmd
    rw [Finset.insert_eq_of_mem hmem]
    exact h
  · exact ⟨by rw [UnorderedMap.keys_set, h.keys], UnorderedMap.forall_set h.own rfl⟩

theorem Monitors.removeDescriptor (h : e.Monitors fds) (fd : Int) :
    (e.removeDescriptor fd).Monitors (fds.erase fd) := by
  unfold Epoll.removeDescriptor
  split
  · refine ⟨by rw [UnorderedMap.keys_erase, h.keys], fun fd' md hmd => ?_⟩
    rw [UnorderedMap.get?_erase] at hmd
    exact h.own fd' md (Option.ite_none_left_eq_some.mp hmd).2
  · rename_i hnone
    have hnot : fd ∉ fds := h.keys ▸ UnorderedMap.notMem_keys.mpr hnone
    rw [Finset.erase_eq_of_notMem hnot]
    exact h

theorem monitoredFd_setHandler (md : MonitoredDescriptor H) (eventType : EventMask)
    (handler : Option H) : (md.setHandler eventType handler).monitoredFd = md.monitoredFd := by
  unfold MonitoredDescriptor.setHandler
  repeat' split
  all_goals rfl

theorem monitoredFd_setHandlers (md : MonitoredDescriptor H) (p : EventMask → Prop)
    [DecidablePred p] (handler : Option H) (types : List EventMask) :
    (types.foldl (fun md evt => if p evt then md.setHandler evt handler else md) md).monitoredFd =
      md.monitoredFd := by
  induction types generalizing md with
  | nil => rfl
  | cons evt types ih =>
    rw [List.foldl_cons, ih]
    split
    · exact monitoredFd_setHandler md evt handler
    · rfl

/-- An entry that is reloaded goes back to its place. -/
theorem reloadEventHandlers_eq_ok {md : MonitoredDescriptor H}
    (h : e.reloadEventHandlers md = .ok e') :
    ∃ stored : MonitoredDescriptor H, stored.monitoredFd = md.monitoredFd ∧
      stored.getHandler = md.getHandler ∧
      e'.monitoredFds = e.monitoredFds.set md.monitoredFd stored := by
  unfold Epoll.reloadEventHandlers epollCtlModify epollCtlAdd at h
  split at h
  · split at h
    · cases h
      exact ⟨md, rfl, rfl, rfl⟩
    · cases h
  · split at h
    · cases h
    · cases h
      exact ⟨{ md with isInitialized := true }, rfl, rfl, rfl⟩

theorem Monitors.reloadEventHandlers (h : e.Monitors fds) {md : MonitoredDescriptor H}
    (hmd : md.monitoredFd ∈ fds) (hreload : e.reloadEventHandlers md = .ok e') :
    e'.Monitors fds := by
  obtain ⟨stored, hstored, _, htable⟩ := reloadEventHandlers_eq_ok hreload
  refine ⟨?_, ?_⟩
  · rw [htable, UnorderedMap.keys_set, h.keys, Finset.insert_eq_of_mem hmd]
  · rw [htable]
    exact UnorderedMap.forall_set h.own hstored

theorem Monitors.addEventHandler (h : e.Monitors fds) {fd : Int} {eventType : EventMask}
    {eventHandler : H} (hadd : e.addEventHandler fd eventType eventHandler = .ok e') :
    e'.Monitors fds := by
  unfold Epoll.addEventHandler at hadd
  split at hadd
  · cases hadd
  · rename_i md hmd
    refine h.reloadEventHandlers ?_ hadd
    rw [monitoredFd_setHandlers, h.own fd md hmd, ← h.keys]
    exact UnorderedMap.mem_keys_of_get? hmd

theorem Monitors.watchClient (h : e.Monitors fds) {fd : Int} {onClientWrite onClientDisconnect : H}
    (hwatch : e.watchClient fd onClientWrite onClientDisconnect = .ok e') :
    e'.Monitors (insert fd fds) := by
  obtain ⟨_, hwrite, hdisconnect⟩ := bind_eq_ok.mp hwatch
  exact ((h.addDescriptor fd).addEventHandler hwrite).addEventHandler hdisconnect

section Handlers

variable {md : MonitoredDescriptor H} {eventType evt : EventMask} {fd fd' : Int} {x eventHandler : H}

private theorem getHandler_setHandler (h : eventType ∈ allEventTypes) (handler : Option H) :
    (md.setHandler eventType handler).getHandler evt =
      if evt = eventType then handler else md.getHandler evt := by
  simp only [allEventTypes, List.mem_cons, List.not_mem_nil, or_false] at h
  rcases h with rfl | rfl | rfl | rfl | rfl | rfl <;>
    simp [MonitoredDescriptor.setHandler, MonitoredDescriptor.getHandler, EPOLLIN, EPOLLOUT,
      EPOLLRDHUP, EPOLLPRI, EPOLLERR, EPOLLHUP] <;>
    grind

private theorem getHandler_setHandlers (p : EventMask → Prop) [DecidablePred p] {types : List EventMask}
    (htypes : types ⊆ allEventTypes) (handler : Option H) :
    (types.foldl (fun md evt => if p evt then md.setHandler evt handler else md) md).getHandler evt =
      if evt ∈ types ∧ p evt then handler else md.getHandler evt := by
  induction types generalizing md with
  | nil => simp
  | cons first types ih =>
    obtain ⟨hfirst, htypes⟩ := List.cons_subset.mp htypes
    rw [List.foldl_cons, ih htypes]
    by_cases hp : p first
    · rw [if_pos hp, getHandler_setHandler hfirst]
      grind
    · rw [if_neg hp]
      grind

/-- Adding a handler changes nothing but the handlers of its event types. -/
theorem Monitors.handler_addEventHandler_eq (h : e.Monitors fds)
    (hadd : e.addEventHandler fd eventType eventHandler = .ok e') :
    e'.handler fd' evt = if fd' = fd ∧ evt ∈ allEventTypes ∧ eventType &&& evt ≠ 0 then
      some eventHandler else e.handler fd' evt := by
  unfold Epoll.addEventHandler at hadd
  split at hadd
  · cases hadd
  · rename_i md hmd
    obtain ⟨stored, _, hhandlers, htable⟩ := reloadEventHandlers_eq_ok hadd
    rw [monitoredFd_setHandlers, h.own fd md hmd] at htable
    rw [handler, htable, UnorderedMap.get?_set]
    by_cases hfd : fd' = fd
    · rw [if_pos hfd, Option.bind_some, hhandlers,
        getHandler_setHandlers _ (List.Subset.refl allEventTypes), hfd, handler, hmd]
      simp
    · rw [if_neg hfd, if_neg fun hnew => hfd hnew.1, handler]

/-- The handlers of a table are old ones and the one that was added. -/
theorem Monitors.handler_addEventHandler (h : e.Monitors fds)
    (hadd : e.addEventHandler fd eventType eventHandler = .ok e') (hx : e'.handler fd' evt = some x) :
    fd' = fd ∧ x = eventHandler ∨ e.handler fd' evt = some x := by
  rw [h.handler_addEventHandler_eq hadd] at hx
  split at hx
  · rename_i hnew
    cases hx
    exact .inl ⟨hnew.1, rfl⟩
  · exact .inr hx

/-- A new entry has no handlers. -/
theorem handler_addDescriptor (e : Epoll H) (fd fd' : Int) (evt : EventMask) :
    (e.addDescriptor fd).handler fd' evt = e.handler fd' evt := by
  unfold Epoll.addDescriptor
  split
  · rfl
  · rename_i hnone
    rw [handler, UnorderedMap.get?_set, handler]
    split
    · rename_i hfd
      rw [hfd, hnone, Option.bind_some]
      simp [MonitoredDescriptor.getHandler]
    · rfl

theorem handler_removeDescriptor (h : (e.removeDescriptor fd).handler fd' evt = some x) :
    e.handler fd' evt = some x := by
  unfold Epoll.removeDescriptor at h
  split at h
  · rw [handler, UnorderedMap.get?_erase] at h
    split at h
    · cases h
    · exact h
  · exact h

theorem handler_removeDescriptor_of_ne (e : Epoll H) (h : fd' ≠ fd) (evt : EventMask) :
    (e.removeDescriptor fd).handler fd' evt = e.handler fd' evt := by
  unfold Epoll.removeDescriptor
  split
  · rw [handler, UnorderedMap.get?_erase, if_neg h, handler]
  · rfl

theorem handler_of_notMem (h : fd ∉ e.monitoredFds.keys) (evt : EventMask) :
    e.handler fd evt = none := by
  rw [handler, UnorderedMap.notMem_keys.mp h, Option.bind_none]

/-- The event types that EPOLLIN contains. -/
theorem contains_EPOLLIN : evt ∈ allEventTypes ∧ EPOLLIN &&& evt ≠ 0 ↔ evt = EPOLLIN := by
  constructor
  · rintro ⟨hmem, hne⟩
    simp only [allEventTypes, List.mem_cons, List.not_mem_nil, or_false] at hmem
    rcases hmem with rfl | rfl | rfl | rfl | rfl | rfl <;> revert hne <;> decide
  · rintro rfl
    decide

theorem contains_closing : evt ∈ allEventTypes ∧ (EPOLLRDHUP ||| EPOLLHUP) &&& evt ≠ 0 ↔
    evt = EPOLLRDHUP ∨ evt = EPOLLHUP := by
  constructor
  · rintro ⟨hmem, hne⟩
    simp only [allEventTypes, List.mem_cons, List.not_mem_nil, or_false] at hmem
    rcases hmem with rfl | rfl | rfl | rfl | rfl | rfl <;> revert hne <;> decide
  · rintro (rfl | rfl) <;> decide

/-- A watched client has three handlers. -/
theorem Monitors.handler_watchClient_eq (h : e.Monitors fds) {onClientWrite onClientDisconnect : H}
    (hwatch : e.watchClient fd onClientWrite onClientDisconnect = .ok e') :
    e'.handler fd' evt = if fd' = fd then
      if evt = EPOLLRDHUP ∨ evt = EPOLLHUP then some onClientDisconnect
      else if evt = EPOLLIN then some onClientWrite else e.handler fd' evt
      else e.handler fd' evt := by
  obtain ⟨_, hwrite, hdisconnect⟩ := bind_eq_ok.mp hwatch
  rw [((h.addDescriptor fd).addEventHandler hwrite).handler_addEventHandler_eq hdisconnect,
    (h.addDescriptor fd).handler_addEventHandler_eq hwrite, handler_addDescriptor]
  simp only [contains_closing, contains_EPOLLIN]
  by_cases hfd : fd' = fd <;> simp [hfd]

theorem Monitors.handler_watchClient (h : e.Monitors fds) {onClientWrite onClientDisconnect : H}
    (hwatch : e.watchClient fd onClientWrite onClientDisconnect = .ok e')
    (hx : e'.handler fd' evt = some x) : fd' = fd ∨ e.handler fd' evt = some x := by
  rw [h.handler_watchClient_eq hwatch] at hx
  split at hx
  · rename_i hfd
    exact .inl hfd
  · exact .inr hx

end Handlers

/-- The table does not notice that the kernel closes a descriptor. -/
theorem Monitors.kernelClose (h : e.Monitors fds) (fd : Int) : (e.kernelClose fd).Monitors fds :=
  ⟨h.keys, h.own⟩

end Monitors

end Epoll

end UpsServer
