import UpsServer.Linux.Interest

namespace UpsServer.Epoll

variable {H : Type} {e e' : Epoll H} {fd : Int} {R R' : Int → EventMask → H → Prop}

/-- The epoll object calls the handlers that `R` relates to a descriptor and a
single event type and no others, and the kernel knows of all of them. -/
structure Serves (e : Epoll H) (R : Int → EventMask → H → Prop) : Prop where
  handlers : ∀ fd evt x, e.handler fd evt = some x ↔ R fd evt x
  monitors : e.Monitors e.monitoredFds.keys
  initialized : ∀ fd md, e.monitoredFds.get? fd = some md → md.isInitialized = true
  inStep : e.InStep

/-- The handlers of a client who is watched. -/
def WatchHandler (onClientWrite onClientDisconnect : H) (evt : EventMask) (x : H) : Prop :=
  evt = EPOLLIN ∧ x = onClientWrite ∨ (evt = EPOLLRDHUP ∨ evt = EPOLLHUP) ∧ x = onClientDisconnect

theorem serves_empty (isEdgeTriggered : Bool) :
    ({ isEdgeTriggered := isEdgeTriggered } : Epoll H).Serves fun _ _ _ => False where
  handlers := fun _ _ _ => ⟨nofun, nofun⟩
  monitors := ⟨rfl, nofun⟩
  initialized := nofun
  inStep := fun _ => rfl

theorem Serves.congr (h : e.Serves R) (hR : ∀ fd evt x, R fd evt x ↔ R' fd evt x) : e.Serves R' :=
  ⟨fun fd evt x => (h.handlers fd evt x).trans (hR fd evt x), h.monitors, h.initialized, h.inStep⟩

theorem Serves.mem_keys (h : e.Serves R) {evt : EventMask} {x : H} (hR : R fd evt x) :
    fd ∈ e.monitoredFds.keys := by
  by_contra hnot
  have hsome := (h.handlers fd evt x).mpr hR
  rw [handler_of_notMem hnot] at hsome
  cases hsome

theorem keys_removeDescriptor (e : Epoll H) (fd : Int) :
    (e.removeDescriptor fd).monitoredFds.keys = e.monitoredFds.keys.erase fd := by
  unfold removeDescriptor
  split
  · exact UnorderedMap.keys_erase _ _
  · rename_i hnone
    exact (Finset.erase_eq_of_notMem (UnorderedMap.notMem_keys.mpr hnone)).symm

theorem Serves.removeDescriptor (h : e.Serves R) (fd : Int) :
    (e.removeDescriptor fd).Serves fun fd' evt x => fd' ≠ fd ∧ R fd' evt x where
  handlers := fun fd' evt x => by
    by_cases hfd : fd' = fd
    · subst hfd
      have hnot : fd' ∉ (e.removeDescriptor fd').monitoredFds.keys := by
        rw [keys_removeDescriptor]
        exact Finset.notMem_erase fd' _
      rw [handler_of_notMem hnot]
      exact ⟨nofun, fun hR => (hR.1 rfl).elim⟩
    · rw [handler_removeDescriptor_of_ne e hfd, h.handlers]
      exact (and_iff_right hfd).symm
  monitors := by
    rw [keys_removeDescriptor]
    exact h.monitors.removeDescriptor fd
  initialized := fun fd' md hmd => by
    unfold Epoll.removeDescriptor at hmd
    split at hmd
    · rw [UnorderedMap.get?_erase] at hmd
      exact h.initialized fd' md (Option.ite_none_left_eq_some.mp hmd).2
    · exact h.initialized fd' md hmd
  inStep := h.inStep.removeDescriptor fd

/-- A descriptor that is not monitored may be closed. -/
theorem Serves.kernelClose (h : e.Serves R) (hfd : fd ∉ e.monitoredFds.keys) :
    (e.kernelClose fd).Serves R := by
  refine ⟨h.handlers, h.monitors.kernelClose fd, h.initialized, fun fd' => ?_⟩
  have hkernel := h.inStep fd'
  change (e.interest.erase fd).get? fd' = e.listensFor fd'
  rw [UnorderedMap.get?_erase]
  split
  · rename_i heq
    rw [heq, listensFor, UnorderedMap.notMem_keys.mp hfd, Option.bind_none]
  · exact hkernel

private theorem monitoredFds_reloadEventHandlers {md : MonitoredDescriptor H}
    (h : e.reloadEventHandlers md = .ok e') :
    e'.monitoredFds = e.monitoredFds.set md.monitoredFd { md with isInitialized := true } := by
  unfold reloadEventHandlers epollCtlModify epollCtlAdd at h
  split at h
  · rename_i hset
    split at h
    · cases h
      rw [← hset]
    · cases h
  · split at h
    · cases h
    · cases h
      rfl

/-- An entry that is given a handler is known to the kernel. -/
theorem initialized_addEventHandler {eventType : EventMask} {eventHandler : H}
    (hmonitors : e.Monitors e.monitoredFds.keys)
    (h : ∀ fd' md, fd' ≠ fd → e.monitoredFds.get? fd' = some md → md.isInitialized = true)
    (hadd : e.addEventHandler fd eventType eventHandler = .ok e') (fd' : Int)
    (md : MonitoredDescriptor H) (hmd : e'.monitoredFds.get? fd' = some md) :
    md.isInitialized = true := by
  unfold addEventHandler at hadd
  split at hadd
  · cases hadd
  · rename_i before hbefore
    rw [monitoredFds_reloadEventHandlers hadd, monitoredFd_setHandlers, hmonitors.own fd before hbefore,
      UnorderedMap.get?_set] at hmd
    split at hmd
    · cases hmd
      rfl
    · rename_i hne
      exact h fd' md hne hmd

/-- A descriptor is monitored, if it is not yet, and gets a handler. -/
theorem Serves.addEventHandler (h : e.Serves R) (fd : Int) (eventType : EventMask)
    (eventHandler : H) :
    ∃ e', (e.addDescriptor fd).addEventHandler fd eventType eventHandler = .ok e' ∧
      e'.monitoredFds.keys = insert fd e.monitoredFds.keys ∧
      e'.isEdgeTriggered = e.isEdgeTriggered ∧
      e'.Serves fun fd' evt x => if fd' = fd ∧ evt ∈ allEventTypes ∧ eventType &&& evt ≠ 0 then
        x = eventHandler else R fd' evt x := by
  have hmonitors := h.monitors.addDescriptor fd
  have hmonitored : (EpollCall.addEventHandler fd eventType eventHandler).OnMonitored
      (insert fd e.monitoredFds.keys) := Finset.mem_insert_self _ _
  obtain ⟨e', hadd, hstep, hmode, hmonitors'⟩ :=
    (h.inStep.addDescriptor fd).call hmonitors hmonitored
  change (e.addDescriptor fd).addEventHandler fd eventType eventHandler = .ok e' at hadd
  have hmode' : (e.addDescriptor fd).isEdgeTriggered = e.isEdgeTriggered := by
    unfold addDescriptor
    split <;> rfl
  refine ⟨e', hadd, hmonitors'.keys, hmode.trans hmode', ⟨fun fd' evt x => ?_, ?_, ?_, hstep⟩⟩
  · rw [hmonitors.handler_addEventHandler_eq hadd, handler_addDescriptor]
    split
    · exact Option.some_inj.trans eq_comm
    · exact h.handlers fd' evt x
  · rw [hmonitors'.keys]
    exact hmonitors'
  · refine initialized_addEventHandler (hmonitors.keys.symm ▸ hmonitors) (fun fd' md hne hmd => ?_) hadd
    unfold addDescriptor at hmd
    split at hmd
    · exact h.initialized fd' md hmd
    · rw [UnorderedMap.get?_set_of_ne _ _ hne] at hmd
      exact h.initialized fd' md hmd

private theorem addDescriptor_of_mem (h : fd ∈ e.monitoredFds.keys) : e.addDescriptor fd = e := by
  obtain ⟨md, hmd⟩ := UnorderedMap.mem_keys.mp h
  rw [addDescriptor, hmd]

/-- A client who was not watched is watched without an exception, and nobody else
notices. -/
theorem Serves.watchClient (h : e.Serves R) (hnew : fd ∉ e.monitoredFds.keys)
    (onClientWrite onClientDisconnect : H) :
    ∃ e', e.watchClient fd onClientWrite onClientDisconnect = .ok e' ∧
      e'.monitoredFds.keys = insert fd e.monitoredFds.keys ∧
      e'.isEdgeTriggered = e.isEdgeTriggered ∧
      e'.Serves fun fd' evt x =>
        fd' = fd ∧ WatchHandler onClientWrite onClientDisconnect evt x ∨ R fd' evt x := by
  obtain ⟨first, hwrite, hkeys, hmode, hserves⟩ := h.addEventHandler fd EPOLLIN onClientWrite
  obtain ⟨e', hdisconnect, hkeys', hmode', hserves'⟩ :=
    hserves.addEventHandler fd (EPOLLRDHUP ||| EPOLLHUP) onClientDisconnect
  have hmem : fd ∈ first.monitoredFds.keys := hkeys ▸ Finset.mem_insert_self _ _
  rw [addDescriptor_of_mem hmem] at hdisconnect
  rw [Finset.insert_eq_of_mem hmem, hkeys] at hkeys'
  refine ⟨e', ?_, hkeys', hmode'.trans hmode, hserves'.congr fun fd' evt x => ?_⟩
  · rw [Epoll.watchClient, hwrite, ok_bind, hdisconnect]
  · simp only [contains_closing, contains_EPOLLIN, WatchHandler]
    by_cases hfd : fd' = fd
    · subst hfd
      have hnone : ¬ R fd' evt x := fun hR => hnew (h.mem_keys hR)
      by_cases hclosing : evt = EPOLLRDHUP ∨ evt = EPOLLHUP
      · have hwrite : evt ≠ EPOLLIN := by rcases hclosing with rfl | rfl <;> decide
        simp [hclosing, hwrite, hnone]
      · simp only [hclosing, hnone, true_and, if_false, false_and, or_false]
        exact if_false_right
    · simp [hfd]

theorem Serves.interest_of_notMem (h : e.Serves R) (hfd : fd ∉ e.monitoredFds.keys) :
    e.interest.get? fd = none := by
  rw [h.inStep, listensFor, UnorderedMap.notMem_keys.mp hfd, Option.bind_none]

/-- The kernel listens for the event types that `R` has handlers for. -/
theorem Serves.interest_eq (h : e.Serves R) (hfd : fd ∈ e.monitoredFds.keys)
    (types : List EventMask)
    (htypes : ∀ evt ∈ allEventTypes, (∃ x, R fd evt x) ↔ evt ∈ types) :
    e.interest.get? fd =
      some ((allEventTypes.filter (· ∈ types)).foldr (· ||| ·) 0 ||| e.triggering) := by
  obtain ⟨md, hmd⟩ := UnorderedMap.mem_keys.mp hfd
  have hfilter : allEventTypes.filter md.hasHandler = allEventTypes.filter (· ∈ types) := by
    refine List.filter_congr fun evt hevt => ?_
    have hhandler : e.handler fd evt = md.getHandler evt := by
      rw [handler, hmd, Option.bind_some]
    rw [Bool.eq_iff_iff, decide_eq_true_iff, ← htypes evt hevt, MonitoredDescriptor.hasHandler,
      ← hhandler, Option.isSome_iff_exists]
    exact exists_congr fun x => h.handlers fd evt x
  rw [h.inStep, listensFor, hmd, Option.bind_some, if_pos (h.initialized fd md hmd),
    MonitoredDescriptor.handledTypes, hfilter]

/-- No event type has no handler. -/
theorem handler_zero (e : Epoll H) (fd : Int) : e.handler fd 0 = none := by
  rw [handler]
  cases e.monitoredFds.get? fd <;> rfl

private theorem pairwise_allEventTypes : allEventTypes.Pairwise fun evt other => evt &&& other = 0 := by
  simp only [allEventTypes, List.pairwise_cons, List.forall_mem_cons, List.not_mem_nil,
    false_imp_iff, implies_true, and_true, List.Pairwise.nil]
  decide

/-- The other event types have no bit in common with a type. -/
theorem exists_split {evt : EventMask} (h : evt ∈ allEventTypes) :
    ∃ before after, allEventTypes = before ++ evt :: after ∧
      (∀ other ∈ before, evt &&& other = 0) ∧ ∀ other ∈ after, evt &&& other = 0 := by
  obtain ⟨before, after, hsplit⟩ := List.append_of_mem h
  have hpairwise := pairwise_allEventTypes
  rw [hsplit, List.pairwise_append, List.pairwise_cons] at hpairwise
  obtain ⟨_, ⟨hafter, _⟩, hbefore⟩ := hpairwise
  refine ⟨before, after, hsplit, fun other hother => ?_, hafter⟩
  rw [BitVec.and_comm]
  exact hbefore other hother evt List.mem_cons_self

end UpsServer.Epoll
