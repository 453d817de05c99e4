import UpsServer.Linux.Epoll

namespace UpsServer

/-- A call on an epoll object whose handlers are taken from `H`. -/
inductive EpollCall (H : Type) where
  | addDescriptor (fd : Int)
  | removeDescriptor (monitoredFd : Int)
  | addEventHandler (monitoredFd : Int) (eventType : EventMask) (eventHandler : H)
  | removeEventHandler (monitoredFd : Int) (eventType : EventMask)

namespace EpollCall

variable {H : Type}

/-- The descriptors that are monitored after a call. -/
def monitored (fds : Finset Int) : EpollCall H → Finset Int
  | .addDescriptor fd => insert fd fds
  | .removeDescriptor fd => fds.erase fd
  | .addEventHandler _ _ _ | .removeEventHandler _ _ => fds

/-- Handlers are added to and removed from descriptors that are monitored. -/
def OnMonitored (fds : Finset Int) : EpollCall H → Prop
  | .addDescriptor _ | .removeDescriptor _ => True
  | .addEventHandler fd _ _ | .removeEventHandler fd _ => fd ∈ fds

/-- All calls of a sequence find their descriptors monitored. -/
def AllOnMonitored : Finset Int → List (EpollCall H) → Prop
  | _, [] => True
  | fds, call :: calls => call.OnMonitored fds ∧ AllOnMonitored (call.monitored fds) calls

instance (fds : Finset Int) : (call : EpollCall H) → Decidable (call.OnMonitored fds)
  | .addDescriptor _ | .removeDescriptor _ => inferInstanceAs (Decidable True)
  | .addEventHandler fd _ _ | .removeEventHandler fd _ => inferInstanceAs (Decidable (fd ∈ fds))

instance decidableAllOnMonitored (fds : Finset Int) :
    (calls : List (EpollCall H)) → Decidable (AllOnMonitored fds calls)
  | [] => inferInstanceAs (Decidable True)
  | call :: calls =>
    have := decidableAllOnMonitored (call.monitored fds) calls
    inferInstanceAs (Decidable (_ ∧ _))

end EpollCall

namespace MonitoredDescriptor

variable {H : Type}

/-- The event types that have a handler. -/
def handledTypes (md : MonitoredDescriptor H) : EventMask :=
  (allEventTypes.filter md.hasHandler).foldr (· ||| ·) 0

private theorem isInitialized_setHandler (md : MonitoredDescriptor H) (eventType : EventMask)
    (handler : Option H) : (md.setHandler eventType handler).isInitialized = md.isInitialized := by
  unfold setHandler
  repeat' split
  all_goals rfl

/-- Setting handlers leaves an entry where it is, and as initialized as it was. -/
theorem foldl_setHandler {f : MonitoredDescriptor H → EventMask → MonitoredDescriptor H}
    (hf : ∀ md evt, f md evt = md ∨ ∃ eventType handler, f md evt = md.setHandler eventType handler)
    (types : List EventMask) (md : MonitoredDescriptor H) :
    (types.foldl f md).monitoredFd = md.monitoredFd ∧
      (types.foldl f md).isInitialized = md.isInitialized := by
  induction types generalizing md with
  | nil => exact ⟨rfl, rfl⟩
  | cons evt types ih =>
    obtain ⟨hfd, hinitialized⟩ := ih (f md evt)
    rw [List.foldl_cons, hfd, hinitialized]
    obtain heq | ⟨eventType, handler, heq⟩ := hf md evt
    · rw [heq]
      exact ⟨rfl, rfl⟩
    · rw [heq]
      exact ⟨Epoll.monitoredFd_setHandler md eventType handler,
        isInitialized_setHandler md eventType handler⟩

end MonitoredDescriptor

namespace Epoll

variable {H : Type} {e : Epoll H} {fds : Finset Int}

def call (e : Epoll H) : EpollCall H → Except Fault (Epoll H)
  | .addDescriptor fd => .ok (e.addDescriptor fd)
  | .removeDescriptor fd => .ok (e.removeDescriptor fd)
  | .addEventHandler fd eventType eventHandler => e.addEventHandler fd eventType eventHandler
  | .removeEventHandler fd eventType => e.removeEventHandler fd eventType

def triggering (e : Epoll H) : EventMask := if e.isEdgeTriggered then EPOLLET else 0

/-- What the kernel is to listen for on a descriptor, according to the table. -/
def listensFor (e : Epoll H) (fd : Int) : Option EventMask :=
  (e.monitoredFds.get? fd).bind fun md =>
    if md.isInitialized then some (md.handledTypes ||| e.triggering) else none

/-- The table and the interest set of the kernel are in step. -/
def InStep (e : Epoll H) : Prop := ∀ fd, e.interest.get? fd = e.listensFor fd

/-- The loop over the event types makes one mask of those with a handler. -/
theorem foldl_handledTypes (md : MonitoredDescriptor H) (types : List EventMask) (acc : EventMask)
    (firstEvt : Bool) (h : firstEvt = true → acc = 0) :
    types.foldl (fun (acc : EventMask × Bool) evt =>
        if md.hasHandler evt then
          if acc.2 then (evt, false) else (acc.1 ||| evt, false)
        else acc) (acc, firstEvt) =
      (acc ||| (types.filter md.hasHandler).foldr (· ||| ·) 0,
        firstEvt && (types.filter md.hasHandler).isEmpty) := by
  induction types generalizing acc firstEvt with
  | nil => simp
  | cons evt types ih =>
    rw [List.foldl_cons]
    cases hhandler : md.hasHandler evt with
    | false =>
      rw [if_neg Bool.false_ne_true, ih acc firstEvt h, List.filter_cons_of_neg (by simp [hhandler])]
    | true =>
      rw [List.filter_cons_of_pos hhandler, List.foldr_cons, List.isEmpty_cons, Bool.and_false]
      cases firstEvt with
      | true => simp [ih, h rfl]
      | false => simp [ih, BitVec.or_assoc]

private theorem resultingEvents_eq (e : Epoll H) (md : MonitoredDescriptor H) :
    e.resultingEvents md = md.handledTypes ||| e.triggering := by
  have hloop := foldl_handledTypes md allEventTypes 0 true fun _ => rfl
  have hzero : ∀ mask : EventMask, 0 ||| mask = mask := fun _ => BitVec.zero_or
  rw [hzero, Bool.true_and] at hloop
  rw [resultingEvents, hloop, triggering, MonitoredDescriptor.handledTypes]
  cases e.isEdgeTriggered with
  | false => exact BitVec.or_zero.symm
  | true =>
    cases htypes : allEventTypes.filter md.hasHandler with
    | nil => rfl
    | cons evt types => rfl

/-- An entry that is reloaded is brought in step with the kernel. -/
theorem InStep.reloadEventHandlers (h : e.InStep) {fd : Int} {md md' : MonitoredDescriptor H}
    (hmd : e.monitoredFds.get? fd = some md) (hfd : md'.monitoredFd = fd)
    (hinitialized : md'.isInitialized = md.isInitialized) :
    ∃ e', e.reloadEventHandlers md' = .ok e' ∧ e'.InStep ∧
      e'.isEdgeTriggered = e.isEdgeTriggered := by
  have hkernel := h fd
  rw [listensFor, hmd, Option.bind_some] at hkernel
  subst hfd
  cases hset : md.isInitialized with
  | true =>
    rw [hset, if_pos rfl] at hkernel
    refine ⟨{ e with
      interest := e.interest.set md'.monitoredFd (e.resultingEvents md')
      monitoredFds := e.monitoredFds.set md'.monitoredFd md' }, ?_, fun fd => ?_, rfl⟩
    · rw [Epoll.reloadEventHandlers, hinitialized, hset, if_pos rfl, epollCtlModify, hkernel]
      rfl
    · have hother := h fd
      rw [listensFor] at hother ⊢
      simp only [UnorderedMap.get?_set]
      split
      · simp [hinitialized, hset, resultingEvents_eq, triggering]
      · exact hother
  | false =>
    rw [hset, if_neg Bool.false_ne_true] at hkernel
    refine ⟨{ e with
      interest := e.interest.set md'.monitoredFd (e.resultingEvents md')
      monitoredFds := e.monitoredFds.set md'.monitoredFd { md' with isInitialized := true } },
      ?_, fun fd => ?_, rfl⟩
    · rw [Epoll.reloadEventHandlers, hinitialized, hset, if_neg Bool.false_ne_true, epollCtlAdd,
        hkernel]
      rfl
    · have hother := h fd
      rw [listensFor] at hother ⊢
      simp only [UnorderedMap.get?_set]
      split
      · rw [resultingEvents_eq]
        rfl
      · exact hother

theorem InStep.addDescriptor (h : e.InStep) (fd : Int) : (e.addDescriptor fd).InStep := by
  unfold Epoll.addDescriptor
  split
  · exact h
  · rename_i hnone
    intro fd'
    have hkernel := h fd'
    rw [listensFor] at hkernel ⊢
    rw [hkernel, UnorderedMap.get?_set]
    split
    · rename_i heq
      rw [heq, hnone]
      rfl
    · rfl

theorem InStep.removeDescriptor (h : e.InStep) (fd : Int) : (e.removeDescriptor fd).InStep := by
  unfold Epoll.removeDescriptor
  split
  · intro fd'
    have hkernel := h fd'
    rw [listensFor] at hkernel ⊢
    simp only [UnorderedMap.get?_erase]
    split
    · rfl
    · exact hkernel
  · exact h

/-- Both changes of handlers end with the entry being reloaded. -/
theorem InStep.foldl_setHandler (h : e.InStep) (hmonitors : e.Monitors fds) {fd : Int}
    (hfd : fd ∈ fds) {f : MonitoredDescriptor H → EventMask → MonitoredDescriptor H}
    (hf : ∀ md evt, f md evt = md ∨ ∃ eventType handler, f md evt = md.setHandler eventType handler)
    {md : MonitoredDescriptor H} (hmd : e.monitoredFds.get? fd = some md) :
    ∃ e', e.reloadEventHandlers (allEventTypes.foldl f md) = .ok e' ∧ e'.InStep ∧
      e'.isEdgeTriggered = e.isEdgeTriggered ∧ e'.Monitors fds := by
  obtain ⟨hsame, hinitialized⟩ := MonitoredDescriptor.foldl_setHandler hf allEventTypes md
  rw [hmonitors.own fd md hmd] at hsame
  obtain ⟨e', hreload, hstep, hmode⟩ := h.reloadEventHandlers hmd hsame hinitialized
  exact ⟨e', hreload, hstep, hmode, hmonitors.reloadEventHandlers (hsame ▸ hfd) hreload⟩

/-- A call on monitored descriptors does not throw, and keeps the table and the
kernel in step. -/
theorem InStep.call (h : e.InStep) (hmonitors : e.Monitors fds) {call : EpollCall H}
    (hcall : call.OnMonitored fds) :
    ∃ e', e.call call = .ok e' ∧ e'.InStep ∧ e'.isEdgeTriggered = e.isEdgeTriggered ∧
      e'.Monitors (call.monitored fds) := by
  cases call with
  | addDescriptor fd =>
    refine ⟨_, rfl, h.addDescriptor fd, ?_, hmonitors.addDescriptor fd⟩
    unfold Epoll.addDescriptor
    split <;> rfl
  | removeDescriptor fd =>
    refine ⟨_, rfl, h.removeDescriptor fd, ?_, hmonitors.removeDescriptor fd⟩
    unfold Epoll.removeDescriptor
    split <;> rfl
  | addEventHandler fd eventType eventHandler =>
    obtain ⟨md, hmd⟩ := UnorderedMap.mem_keys.mp (hmonitors.keys ▸ hcall)
    rw [Epoll.call, Epoll.addEventHandler, hmd]
    refine h.foldl_setHandler hmonitors hcall (fun md evt => ?_) hmd
    split
    · exact .inr ⟨evt, some eventHandler, rfl⟩
    · exact .inl rfl
  | removeEventHandler fd eventType =>
    obtain ⟨md, hmd⟩ := UnorderedMap.mem_keys.mp (hmonitors.keys ▸ hcall)
    rw [Epoll.call, Epoll.removeEventHandler, hmd]
    refine h.foldl_setHandler hmonitors hcall (fun md evt => ?_) hmd
    split
    · exact .inr ⟨eventType &&& evt, none, rfl⟩
    · exact .inl rfl

theorem InStep.calls (h : e.InStep) (hmonitors : e.Monitors fds) {calls : List (EpollCall H)}
    (hcalls : EpollCall.AllOnMonitored fds calls) :
    ∃ e', calls.foldlM Epoll.call e = .ok e' ∧ e'.InStep ∧
      e'.isEdgeTriggered = e.isEdgeTriggered := by
  induction calls generalizing e fds with
  | nil => exact ⟨e, rfl, h, rfl⟩
  | cons call calls ih =>
    obtain ⟨hcall, hcalls⟩ := hcalls
    obtain ⟨first, hfirst, hstep, hmode, hmonitors'⟩ := h.call hmonitors hcall
    obtain ⟨e', hlater, hstep', hmode'⟩ := ih hstep hmonitors' hcalls
    refine ⟨e', ?_, hstep', hmode'.trans hmode⟩
    rw [List.foldlM_cons, hfirst]
    exact hlater

/-- The table of an epoll object refines the interest set of the kernel: no call on
monitored descriptors throws, and after all of them a descriptor is in the set
exactly when its entry is initialized, with the event types that have a handler. -/
theorem interest_of_calls (isEdgeTriggered : Bool) {calls : List (EpollCall H)}
    (h : EpollCall.AllOnMonitored ∅ calls) :
    ∃ e, calls.foldlM Epoll.call ({ isEdgeTriggered := isEdgeTriggered } : Epoll H) = .ok e ∧
      ∀ fd, (fd ∈ e.interest.keys ↔
          ∃ md, e.monitoredFds.get? fd = some md ∧ md.isInitialized = true) ∧
        ∀ md mask, e.monitoredFds.get? fd = some md → e.interest.get? fd = some mask →
          mask = md.handledTypes ||| if isEdgeTriggered then EPOLLET else 0 := by
  have hempty : ({ isEdgeTriggered := isEdgeTriggered } : Epoll H).InStep := fun _ => rfl
  obtain ⟨e, hcalls, hstep, hmode⟩ := hempty.calls (monitors_empty isEdgeTriggered) h
  refine ⟨e, hcalls, fun fd => ⟨?_, fun md mask hmd hmask => ?_⟩⟩
  · rw [UnorderedMap.mem_keys, hstep fd, listensFor]
    constructor
    · rintro ⟨mask, hmask⟩
      obtain ⟨md, hmd, hset⟩ := Option.bind_eq_some_iff.mp hmask
      exact ⟨md, hmd, (Option.ite_none_right_eq_some.mp hset).1⟩
    · rintro ⟨md, hmd, hset⟩
      exact ⟨_, by rw [hmd, Option.bind_some, if_pos hset]⟩
  · rw [hstep fd, listensFor, hmd, Option.bind_some] at hmask
    obtain ⟨_, heq⟩ := Option.ite_none_right_eq_some.mp hmask
    rw [← Option.some.inj heq, triggering, hmode]

/-- A handler is removed before one is added, and its descriptor comes back after
its removal. -/
theorem interest_of_calls_again :
    ∃ e, [.addDescriptor 5, .removeEventHandler 5 EPOLLIN, .addEventHandler 5 (EPOLLIN ||| EPOLLHUP) (),
        .removeDescriptor 5, .addDescriptor 5, .addEventHandler 5 EPOLLOUT ()].foldlM Epoll.call
          ({ isEdgeTriggered := true } : Epoll Unit) = .ok e ∧
      ∀ md mask, e.monitoredFds.get? 5 = some md → e.interest.get? 5 = some mask →
        mask = md.handledTypes ||| EPOLLET := by
  have hmonitored : EpollCall.AllOnMonitored ∅ ([.addDescriptor 5, .removeEventHandler 5 EPOLLIN,
      .addEventHandler 5 (EPOLLIN ||| EPOLLHUP) (), .removeDescriptor 5, .addDescriptor 5,
      .addEventHandler 5 EPOLLOUT ()] : List (EpollCall Unit)) := by
    decide
  obtain ⟨e, hcalls, hinterest⟩ := interest_of_calls true hmonitored
  exact ⟨e, hcalls, (hinterest 5).2⟩

end Epoll

end UpsServer
