import UpsServer.Linux.Epoll

namespace UpsServer

/-- An entry of the array `epoll_wait` fills. -/
structure EpollEvent where
  events : EventMask
  fd : Int
deriving DecidableEq

namespace Epoll

/-- What a turn of the outer loop of `waitForEvents` did: the handlers it called
with the event types they were called for, and whether it left the function. -/
structure Turn (H σ : Type) where
  state : Epoll H × σ
  called : List (EventMask × H) := []
  returned : Bool := false

section WaitForEvents

variable {H σ ε : Type} (call : H → Int → Epoll H × σ → Except ε (Epoll H × σ))

/-- A turn of the inner loop. Handlers act on the epoll object and on whatever
else the program holds. -/
def handleEventType (event : EpollEvent) (turn : Turn H σ) (evt : EventMask) :
    Except ε (Turn H σ) :=
  if turn.returned then pure turn
  else
    match turn.state.1.monitoredFds.get? event.fd with
    -- The monitored descriptor can be removed during the event handling process, protect against this
    | none => pure { turn with returned := true }
    | some md =>
      match md.getHandler (event.events &&& evt) with
      | some handler => do
        let state ← call handler event.fd turn.state
        pure { turn with state := state, called := turn.called ++ [(evt, handler)] }
      | none => pure turn

/-- A turn of the outer loop. -/
def handleEvent (event : EpollEvent) (state : Epoll H × σ) : Except ε (Turn H σ) := do
  let turn ← allEventTypes.foldlM (handleEventType call event) { state := state }
  if turn.returned then pure turn
  -- Remove this descriptor if it's closing
  else if event.events &&& (EPOLLRDHUP ||| EPOLLHUP) ≠ 0 then
    pure { turn with state := (turn.state.1.removeDescriptor event.fd, turn.state.2) }
  else pure turn

/-- The loop over the events `epoll_wait` has returned. The handlers called are
listed for each event that had a turn. -/
def waitForEvents :
    List EpollEvent → Epoll H × σ → Except ε (List (List (EventMask × H)) × Epoll H × σ)
  | [], state => pure ([], state)
  | event :: events, state => do
    let turn ← handleEvent call event state
    if turn.returned then pure ([turn.called], turn.state)
    else do
      let (called, state) ← waitForEvents events turn.state
      pure (turn.called :: called, state)

/-- The event types of a list are served: each handler that is registered for a
reported type when the type is looked at has been called. -/
inductive Served (event : EpollEvent) :
    List EventMask → Epoll H × σ → List (EventMask × H) → Epoll H × σ → Prop where
  | nil {state : Epoll H × σ} : Served event [] state [] state
  | call {evt : EventMask} {types : List EventMask} {state state' final : Epoll H × σ} {handler : H}
      {called : List (EventMask × H)}
        (hhandler : state.1.handler event.fd (event.events &&& evt) = some handler)
      (hcall : call handler event.fd state = .ok state')
      (hserved : Served event types state' called final) :
      Served event (evt :: types) state ((evt, handler) :: called) final
  | skip {evt : EventMask} {types : List EventMask} {state final : Epoll H × σ}
      {called : List (EventMask × H)}
        (hhandler : state.1.handler event.fd (event.events &&& evt) = none)
      (hserved : Served event types state called final) :
        Served event (evt :: types) state called final

/-- Every event of the batch whose descriptor is monitored when its turn comes
is served. -/
def LosesNoEvent (batch : List EpollEvent) (state : Epoll H × σ) : Prop :=
  ∀ called final, waitForEvents call batch state = .ok (called, final) →
    ∀ before event after, batch = before ++ event :: after →
      ∀ earlier state', waitForEvents call before state = .ok (earlier, state') →
        event.fd ∈ state'.1.monitoredFds.keys →
          ∃ state'', Served call event allEventTypes state' (called[before.length]?.getD []) state''

/-- A handler is registered for one of the reported event types. -/
def HasReportedHandler (e : Epoll H) (event : EpollEvent) : Prop :=
  ∃ evt ∈ allEventTypes, e.handler event.fd (event.events &&& evt) ≠ none

/-- The state a handled event leaves behind: a descriptor that is closing is removed. -/
def removeClosing (event : EpollEvent) (state : Epoll H × σ) : Epoll H × σ :=
  if event.events &&& (EPOLLRDHUP ||| EPOLLHUP) ≠ 0 then
    (state.1.removeDescriptor event.fd, state.2)
  else state

/-- The handlers of some of the six types have been called, and the descriptor
is missing from the table when the next type is looked at. -/
def FoundRemoved (event : EpollEvent) (state state' : Epoll H × σ) : Prop :=
  ∃ types evt rest called, allEventTypes = types ++ evt :: rest ∧
    Served call event types state called state' ∧ event.fd ∉ state'.1.monitoredFds.keys

/-- The events of the batch are served in order. Whenever a descriptor is missing
from the table at one of its checks, whoever has removed it, no event behind it
has a handler left to call. -/
def NothingBehindRemoved : List EpollEvent → Epoll H × σ → Prop
  | [], _ => True
  | event :: events, state =>
    (∀ state', FoundRemoved call event state state' →
      ∀ later ∈ events, ¬ HasReportedHandler state'.1 later) ∧
    ∀ called state', Served call event allEventTypes state called state' →
      NothingBehindRemoved events (removeClosing event state')

variable {call}

private theorem foldlM_handleEventType_returned {event : EpollEvent} (types : List EventMask)
    {turn : Turn H σ} (h : turn.returned = true) :
    types.foldlM (handleEventType call event) turn = pure turn := by
  induction types with
  | nil => rfl
  | cons evt types ih =>
    rw [List.foldlM_cons, handleEventType, if_pos h]
    exact ih

private theorem served_of_noHandler {event : EpollEvent} {types : List EventMask} {state : Epoll H × σ}
    (h : ∀ evt ∈ types, state.1.handler event.fd (event.events &&& evt) = none) :
    Served call event types state [] state := by
  induction types with
  | nil => exact .nil
  | cons evt types ih =>
    exact .skip (h evt List.mem_cons_self) (ih fun evt hevt => h evt (List.mem_cons_of_mem _ hevt))

theorem Served.eq_of_noHandler {event : EpollEvent} {types : List EventMask}
    {state final : Epoll H × σ} {called : List (EventMask × H)}
    (h : Served call event types state called final)
    (hnone : ∀ evt ∈ types, state.1.handler event.fd (event.events &&& evt) = none) :
    final = state := by
  induction h with
  | nil => rfl
  | call hhandler =>
    rw [hnone _ List.mem_cons_self] at hhandler
    cases hhandler
  | skip _ _ ih => exact ih fun evt hevt => hnone evt (List.mem_cons_of_mem _ hevt)

theorem Served.append {event : EpollEvent} {types types' : List EventMask}
    {state state' final : Epoll H × σ} {called called' : List (EventMask × H)}
    (h : Served call event types state called state')
    (h' : Served call event types' state' called' final) :
    Served call event (types ++ types') state (called ++ called') final := by
  induction h with
  | nil => exact h'
  | call hhandler hcall _ ih => exact .call hhandler hcall (ih h')
  | skip hhandler _ ih => exact .skip hhandler (ih h')

/-- The inner loop serves the event types it runs through. It leaves the function
where it finds the descriptor removed, and nowhere else. -/
theorem served_of_foldlM {event : EpollEvent} {types : List EventMask} {turn turn' : Turn H σ}
    (hreturned : turn.returned = false)
    (h : types.foldlM (handleEventType call event) turn = .ok turn') :
    ∃ before rest called, types = before ++ rest ∧ turn'.called = turn.called ++ called ∧
      Served call event before turn.state called turn'.state ∧
      (turn'.returned = false → rest = []) ∧
      (turn'.returned = true → rest ≠ [] ∧ turn'.state.1.monitoredFds.get? event.fd = none) := by
  induction types generalizing turn with
  | nil =>
    injection h with h
    subst h
    exact ⟨[], [], [], rfl, by simp, .nil, fun _ => rfl, fun hleft => by simp [hreturned] at hleft⟩
  | cons evt types ih =>
    rw [List.foldlM_cons, handleEventType, hreturned, if_neg Bool.false_ne_true] at h
    cases hmd : turn.state.1.monitoredFds.get? event.fd with
    | none =>
      simp only [hmd] at h
      have hleft : types.foldlM (handleEventType call event) { turn with returned := true } =
          .ok turn' := h
      rw [foldlM_handleEventType_returned types rfl] at hleft
      injection hleft with hleft
      subst hleft
      exact ⟨[], evt :: types, [], rfl, by simp, .nil, by simp,
        fun _ => ⟨by simp, hmd⟩⟩
    | some md =>
      simp only [hmd] at h
      cases hget : md.getHandler (event.events &&& evt) with
      | none =>
        simp only [hget] at h
        obtain ⟨before, rest, called, rfl, hcalled, hserved, hend⟩ := ih hreturned h
        exact ⟨evt :: before, rest, called, rfl, hcalled, .skip (by simp [handler, hmd, hget]) hserved,
          hend⟩
      | some registered =>
        simp only [hget, bind_assoc, pure_bind] at h
        obtain ⟨state', hcall, h⟩ := bind_eq_ok.mp h
        obtain ⟨before, rest, called, rfl, hcalled, hserved, hend⟩ := ih rfl h
        exact ⟨evt :: before, rest, (evt, registered) :: called, rfl, by simpa using hcalled,
          .call (by simp [handler, hmd, hget]) hcall hserved, hend⟩

/-- A turn runs through the six types and then removes a descriptor that is closing. -/
theorem handleEvent_eq (event : EpollEvent) (state : Epoll H × σ) :
    handleEvent call event state =
      allEventTypes.foldlM (handleEventType call event) { state := state } >>= fun turn =>
        pure (if turn.returned then turn else { turn with state := removeClosing event turn.state }) := by
  rw [handleEvent]
  congr 1
  funext turn
  unfold removeClosing
  split
  · rfl
  · split <;> rfl

/-- A turn of the outer loop that comes to its end has served its event. -/
theorem served_of_not_returned {event : EpollEvent} {state : Epoll H × σ} {turn : Turn H σ}
    (h : handleEvent call event state = .ok turn) (hreturned : turn.returned = false) :
    ∃ state', Served call event allEventTypes state turn.called state' ∧
      turn.state = removeClosing event state' := by
  rw [handleEvent_eq] at h
  obtain ⟨turn', hloop, h⟩ := bind_eq_ok.mp h
  obtain ⟨before, rest, called, htypes, hcalled, hserved, hend, _⟩ := served_of_foldlM rfl hloop
  injection h with h
  cases hleft : turn'.returned with
  | true =>
    rw [hleft, if_pos rfl] at h
    rw [← h, hleft] at hreturned
    cases hreturned
  | false =>
    rw [hleft, if_neg Bool.false_ne_true] at h
    subst h
    rw [hend hleft, List.append_nil] at htypes
    exact ⟨turn'.state, by rw [htypes, hcalled]; exact hserved, rfl⟩

/-- A turn that leaves the function has found its descriptor removed. Even so it
has called everything there was to call. -/
theorem foundRemoved_of_returned {event : EpollEvent} {state : Epoll H × σ} {turn : Turn H σ}
    (h : handleEvent call event state = .ok turn) (hreturned : turn.returned = true) :
    FoundRemoved call event state turn.state ∧
      Served call event allEventTypes state turn.called turn.state := by
  rw [handleEvent_eq] at h
  obtain ⟨turn', hloop, h⟩ := bind_eq_ok.mp h
  obtain ⟨before, rest, called, htypes, hcalled, hserved, _, hend⟩ := served_of_foldlM rfl hloop
  injection h with h
  cases hleft : turn'.returned with
  | false =>
    rw [hleft, if_neg Bool.false_ne_true] at h
    rw [← h] at hreturned
    cases hreturned
  | true =>
    rw [hleft, if_pos rfl] at h
    subst h
    obtain ⟨hrest, hmd⟩ := hend hleft
    obtain ⟨evt, rest, rfl⟩ := List.exists_cons_of_ne_nil hrest
    have hbehind : Served call event (evt :: rest) turn'.state [] turn'.state :=
      served_of_noHandler (by simp [handler, hmd])
    refine ⟨⟨before, evt, rest, called, htypes, hserved, UnorderedMap.notMem_keys.mpr hmd⟩, ?_⟩
    rw [htypes, hcalled]
    simpa using hserved.append hbehind

/-- A turn of the outer loop serves its event. -/
theorem served_of_handleEvent {event : EpollEvent} {state : Epoll H × σ} {turn : Turn H σ}
    (h : handleEvent call event state = .ok turn) :
    ∃ state', Served call event allEventTypes state turn.called state' := by
  cases hreturned : turn.returned with
  | true => exact ⟨turn.state, (foundRemoved_of_returned h hreturned).2⟩
  | false =>
    obtain ⟨state', hserved, _⟩ := served_of_not_returned h hreturned
    exact ⟨state', hserved⟩

/-- The turn of the first event of a batch begins in the state the batch finds. -/
theorem served_of_first {event event' : EpollEvent} {events after : List EpollEvent}
    {state state' : Epoll H × σ} {turn : Turn H σ} {earlier : List (List (EventMask × H))}
    (h : handleEvent call event state = .ok turn) (hbatch : event :: events = event' :: after)
    (hbefore : waitForEvents call [] state = .ok (earlier, state')) :
    ∃ state'', Served call event' allEventTypes state' turn.called state'' := by
  obtain ⟨rfl, _⟩ := List.cons.inj hbatch
  injection hbefore with hbefore
  obtain ⟨_, rfl⟩ := Prod.mk.inj hbefore
  exact served_of_handleEvent h

/-- Serving an event calls something as soon as a handler is registered. -/
theorem Served.called_eq_nil_iff {event : EpollEvent} {types : List EventMask}
    {state final : Epoll H × σ} {called : List (EventMask × H)}
    (h : Served call event types state called final) :
    called = [] ↔ ∀ evt ∈ types, state.1.handler event.fd (event.events &&& evt) = none := by
  induction h with
  | nil => simp
  | call hhandler => simp [hhandler]
  | skip hhandler _ ih => simp [hhandler, ih]

private theorem not_hasReportedHandler_iff {e : Epoll H} {event : EpollEvent} :
    ¬ HasReportedHandler e event ↔
      ∀ evt ∈ allEventTypes, e.handler event.fd (event.events &&& evt) = none := by
  simp [HasReportedHandler]

private theorem served_nil_iff {event : EpollEvent} {state : Epoll H × σ} :
    (∃ state', Served call event allEventTypes state [] state') ↔
      ¬ HasReportedHandler state.1 event := by
  rw [not_hasReportedHandler_iff]
  constructor
  · rintro ⟨_, hserved⟩
    exact hserved.called_eq_nil_iff.mp rfl
  · intro hnone
    exact ⟨state, served_of_noHandler hnone⟩

theorem HasReportedHandler.monitored {e : Epoll H} {event : EpollEvent}
    (h : HasReportedHandler e event) : event.fd ∈ e.monitoredFds.keys := by
  obtain ⟨_, _, hhandler⟩ := h
  by_contra hnot
  rw [handler, UnorderedMap.notMem_keys.mp hnot] at hhandler
  exact hhandler rfl

section Batch

variable {event : EpollEvent} {events : List EpollEvent} {state : Epoll H × σ} {turn : Turn H σ}

private theorem waitForEvents_of_returned (h : handleEvent call event state = .ok turn)
    (hreturned : turn.returned = true) :
    waitForEvents call (event :: events) state = .ok ([turn.called], turn.state) := by
  rw [waitForEvents, h, ok_bind, if_pos hreturned]
  rfl

private theorem waitForEvents_of_not_returned (h : handleEvent call event state = .ok turn)
    (hreturned : turn.returned = false) :
    waitForEvents call (event :: events) state =
      waitForEvents call events turn.state >>= fun rest =>
        pure (turn.called :: rest.1, rest.2) := by
  rw [waitForEvents, h, ok_bind, hreturned, if_neg Bool.false_ne_true]

/-- After a turn that leaves the function the events behind it are served only
if there is nothing to call for them. -/
theorem losesNoEvent_of_returned (h : handleEvent call event state = .ok turn)
    (hreturned : turn.returned = true) :
    LosesNoEvent call (event :: events) state ↔
      ∀ later ∈ events, ¬ HasReportedHandler turn.state.1 later := by
  constructor
  · intro hall later hlater hreported
    obtain ⟨before, after, rfl⟩ := List.append_of_mem hlater
    obtain ⟨state', hserved⟩ :=
      hall _ _ (waitForEvents_of_returned h hreturned) (event :: before) later after rfl _ _
      (waitForEvents_of_returned h hreturned) hreported.monitored
    exact served_nil_iff.mp ⟨state', by simpa using hserved⟩ hreported
  · intro hnone called final hrun before event' after hbatch earlier state' hbefore _
    rw [waitForEvents_of_returned h hreturned] at hrun
    injection hrun with hrun
    obtain ⟨rfl, rfl⟩ := Prod.mk.inj hrun
    cases before with
    | nil => exact served_of_first h hbatch hbefore
    | cons first before =>
      obtain ⟨rfl, rfl⟩ := List.cons.inj hbatch
      rw [waitForEvents_of_returned h hreturned] at hbefore
      injection hbefore with hbefore
      obtain ⟨_, rfl⟩ := Prod.mk.inj hbefore
      simpa using served_nil_iff.mpr (hnone event' (by simp))

private theorem losesNoEvent_of_not_returned (h : handleEvent call event state = .ok turn)
    (hreturned : turn.returned = false) :
    LosesNoEvent call (event :: events) state ↔ LosesNoEvent call events turn.state := by
  constructor
  · intro hall called final hrun before event' after hbatch earlier state' hbefore hmonitored
    have hwhole : waitForEvents call (event :: events) state =
        .ok (turn.called :: called, final) := by
      rw [waitForEvents_of_not_returned h hreturned, hrun]
      rfl
    have hfirst : waitForEvents call (event :: before) state =
        .ok (turn.called :: earlier, state') := by
      rw [waitForEvents_of_not_returned h hreturned, hbefore]
      rfl
    simpa using hall _ _ hwhole (event :: before) event' after (by rw [hbatch]; rfl) _ _ hfirst
      hmonitored
  · intro hall called final hrun before event' after hbatch earlier state' hbefore hmonitored
    rw [waitForEvents_of_not_returned h hreturned] at hrun
    obtain ⟨⟨called', final'⟩, hrun', hpair⟩ := bind_eq_ok.mp hrun
    injection hpair with hpair
    obtain ⟨rfl, rfl⟩ := Prod.mk.inj hpair
    cases before with
    | nil => exact served_of_first h hbatch hbefore
    | cons first before =>
      obtain ⟨rfl, rfl⟩ := List.cons.inj hbatch
      rw [waitForEvents_of_not_returned h hreturned] at hbefore
      obtain ⟨⟨earlier', state''⟩, hbefore', hpair⟩ := bind_eq_ok.mp hbefore
      injection hpair with hpair
      obtain ⟨rfl, rfl⟩ := Prod.mk.inj hpair
      simpa using hall _ _ hrun' before event' after rfl _ _ hbefore' hmonitored

end Batch

/-- The inner loop ends in the state its event is served in. It leaves the
function only where the descriptor is gone. -/
theorem foldlM_of_served {event : EpollEvent} {types : List EventMask} {state final : Epoll H × σ}
    {called : List (EventMask × H)} (h : Served call event types state called final)
    (before : List (EventMask × H)) :
    ∃ turn, types.foldlM (handleEventType call event) { state := state, called := before } =
        .ok turn ∧ turn.state = final := by
  induction h generalizing before with
  | nil => exact ⟨_, rfl, rfl⟩
  | @call evt types state state' final registered called hhandler hcall _ ih =>
    obtain ⟨md, hmd, hget⟩ := Option.bind_eq_some_iff.mp hhandler
    obtain ⟨turn, hturn, hfinal⟩ := ih (before ++ [(evt, registered)])
    refine ⟨turn, ?_, hfinal⟩
    rw [List.foldlM_cons, handleEventType, if_neg Bool.false_ne_true]
    simp only [hmd, hget, hcall, ok_bind]
    exact hturn
  | @skip evt types state final called hhandler hserved ih =>
    rw [List.foldlM_cons, handleEventType, if_neg Bool.false_ne_true]
    cases hmd : state.1.monitoredFds.get? event.fd with
    | none =>
      exact ⟨_, foldlM_handleEventType_returned types rfl, (hserved.eq_of_noHandler (by simp [handler, hmd])).symm⟩
    | some md =>
      have hget : md.getHandler (event.events &&& evt) = none := by
        simpa [handler, hmd] using hhandler
      obtain ⟨turn, hturn, hfinal⟩ := ih before
      refine ⟨turn, ?_, hfinal⟩
      simp only [hget]
      exact hturn

section Turn

variable {event : EpollEvent} {state state' : Epoll H × σ} {turn : Turn H σ}

/-- A descriptor that is found removed ends the turn, and with it the whole function. -/
theorem FoundRemoved.handleEvent (h : FoundRemoved call event state state') :
    ∃ turn, handleEvent call event state = .ok turn ∧ turn.returned = true ∧ turn.state = state' := by
  obtain ⟨types, evt, rest, called, htypes, hserved, hgone⟩ := h
  obtain ⟨turn, hturn, rfl⟩ := foldlM_of_served hserved []
  have hleaves : handleEventType call event turn evt = .ok { turn with returned := true } := by
    rw [handleEventType]
    split
    · rename_i hreturned
      rw [← hreturned]
      rfl
    · rw [UnorderedMap.notMem_keys.mp hgone]
      rfl
  refine ⟨{ turn with returned := true }, ?_, rfl, rfl⟩
  rw [handleEvent_eq, htypes, List.foldlM_append, hturn, ok_bind, List.foldlM_cons, hleaves,
    ok_bind, foldlM_handleEventType_returned rest rfl]
  rfl

/-- The turn of an event that is served to its end. -/
theorem Served.handleEvent {called : List (EventMask × H)}
    (h : Served call event allEventTypes state called state') :
    ∃ turn, handleEvent call event state = .ok turn ∧
      turn.state = if turn.returned then state' else removeClosing event state' := by
  obtain ⟨turn, hturn, rfl⟩ := foldlM_of_served h []
  rw [handleEvent_eq, hturn, ok_bind]
  cases hreturned : turn.returned with
  | true => exact ⟨_, rfl, by simp [hreturned]⟩
  | false => exact ⟨_, rfl, by simp⟩

end Turn

theorem HasReportedHandler.of_removeClosing {event later : EpollEvent} {state : Epoll H × σ}
    (h : HasReportedHandler (removeClosing event state).1 later) :
    HasReportedHandler state.1 later := by
  unfold removeClosing at h
  split at h
  · obtain ⟨evt, hevt, hhandler⟩ := h
    obtain ⟨registered, hregistered⟩ := Option.ne_none_iff_exists'.mp hhandler
    exact ⟨evt, hevt, by simp [handler_removeDescriptor hregistered]⟩
  · exact h

/-- Nothing is called for events without handlers, so none of them comes to have one. -/
theorem nothingBehindRemoved_of_noHandler {events : List EpollEvent} {state : Epoll H × σ}
    (h : ∀ later ∈ events, ¬ HasReportedHandler state.1 later) :
    NothingBehindRemoved call events state := by
  induction events generalizing state with
  | nil => trivial
  | cons event events ih =>
    have hnone := not_hasReportedHandler_iff.mp (h event List.mem_cons_self)
    have hbehind : ∀ later ∈ events, ¬ HasReportedHandler state.1 later :=
      fun later hlater => h later (List.mem_cons_of_mem _ hlater)
    constructor
    · rintro state' ⟨types, evt, rest, called, htypes, hserved, _⟩
      obtain rfl := hserved.eq_of_noHandler fun evt' hevt' => hnone evt' (by simp [htypes, hevt'])
      exact hbehind
    · intro called state' hserved
      obtain rfl := hserved.eq_of_noHandler hnone
      exact ih fun later hlater hreported => hbehind later hlater hreported.of_removeClosing

/-- No event of a batch is lost exactly when nothing is left to call behind an
event whose descriptor is found removed. -/
theorem losesNoEvent_iff (batch : List EpollEvent) (state : Epoll H × σ) :
    LosesNoEvent call batch state ↔ NothingBehindRemoved call batch state := by
  induction batch generalizing state with
  | nil => simp [LosesNoEvent, NothingBehindRemoved]
  | cons event events ih =>
    rw [NothingBehindRemoved]
    cases hturn : handleEvent call event state with
    | error fault =>
      refine iff_of_true (fun called final hrun => ?_) ⟨fun state' hremoved => ?_, fun called state' hserved => ?_⟩
      · rw [waitForEvents, hturn] at hrun
        cases hrun
      · obtain ⟨_, hok, _⟩ := hremoved.handleEvent
        cases hturn.symm.trans hok
      · obtain ⟨_, hok, _⟩ := hserved.handleEvent
        cases hturn.symm.trans hok
    | ok turn =>
      by_cases hreturned : turn.returned = true
      · rw [losesNoEvent_of_returned hturn hreturned]
        constructor
        · intro hnone
          refine ⟨fun state' hremoved => ?_, fun called state' hserved => ?_⟩
          · obtain ⟨turn', hok, _, rfl⟩ := hremoved.handleEvent
            obtain rfl := Except.ok.inj (hturn.symm.trans hok)
            exact hnone
          · obtain ⟨turn', hok, hstate⟩ := hserved.handleEvent
            obtain rfl := Except.ok.inj (hturn.symm.trans hok)
            rw [if_pos hreturned] at hstate
            subst hstate
            exact nothingBehindRemoved_of_noHandler fun later hlater hreported =>
              hnone later hlater hreported.of_removeClosing
        · intro hnothing
          exact hnothing.1 _ (foundRemoved_of_returned hturn hreturned).1
      · rw [losesNoEvent_of_not_returned hturn (by simpa using hreturned), ih]
        constructor
        · intro hnothing
          refine ⟨fun state' hremoved => ?_, fun called state' hserved => ?_⟩
          · obtain ⟨turn', hok, hleft, _⟩ := hremoved.handleEvent
            obtain rfl := Except.ok.inj (hturn.symm.trans hok)
            exact absurd hleft hreturned
          · obtain ⟨turn', hok, hstate⟩ := hserved.handleEvent
            obtain rfl := Except.ok.inj (hturn.symm.trans hok)
            rw [if_neg hreturned] at hstate
            rw [← hstate]
            exact hnothing
        · intro hnothing
          obtain ⟨state', hserved, hstate⟩ := served_of_not_returned hturn (by simpa using hreturned)
          rw [hstate]
          exact hnothing.2 _ _ hserved

end WaitForEvents

/-- The effect of `IdleUsersRoom::_onClientDisconnect` on the epoll object. -/
def removeSelf (_ : Unit) (fd : Int) (state : Epoll Unit × Unit) :
    Except Fault (Epoll Unit × Unit) :=
  pure (state.1.removeDescriptor fd, state.2)

/-- Two clients that are watched for hanging up. -/
def twoClients : Epoll Unit :=
  let client (fd : Int) : MonitoredDescriptor Unit :=
    { monitoredFd := fd, isInitialized := true, RDHUP_handler := some (), HUP_handler := some () }
  let events := EPOLLRDHUP ||| EPOLLHUP ||| EPOLLET
  { monitoredFds := ((∅ : UnorderedMap Int (MonitoredDescriptor Unit)).set 5 (client 5)).set 6 (client 6)
    interest := ((∅ : UnorderedMap Int EventMask).set 5 events).set 6 events
    isEdgeTriggered := true }

/-- When two clients hang up together, the second one goes unnoticed. -/
theorem not_losesNoEvent_twoClients :
    ¬ LosesNoEvent removeSelf [⟨EPOLLRDHUP, 5⟩, ⟨EPOLLRDHUP, 6⟩] (twoClients, ()) := by
  have hturn : handleEvent removeSelf ⟨EPOLLRDHUP, 5⟩ (twoClients, ()) =
      .ok { state := (twoClients.removeDescriptor 5, ()), called := [(EPOLLRDHUP, ())], returned := true } := by
    rfl
  intro hall
  refine (losesNoEvent_of_returned hturn rfl).mp hall ⟨EPOLLRDHUP, 6⟩ List.mem_cons_self ?_
  exact ⟨EPOLLRDHUP, by decide, by decide +kernel⟩

end Epoll

end UpsServer
